import Mathlib.Data.List.Forall2
import RegistryBlock.Block.Basic
import RegistryBlock.Proofs.Json.RoundTrip

/-!
# Blocks as documents

The text of a block is a document from which the block can be had back, field by field, by anyone
who reads JSON. The target of a file is absent from it exactly when the file has none.
-/

namespace RegistryBlock

open Json (Value)

/-! ### Reading a block off a document -/

def namesOf? : Value → Option (List String)
  | .arr items => items.mapM Value.str?
  | _ => none

def membersOf? : Value → Option (List (String × Value))
  | .obj members => some members
  | _ => none

def BlockFile.ofJson? (v : Value) : Option BlockFile := do
  let path ← (v.get? "path").bind Value.str?
  let content ← (v.get? "content").bind Value.str?
  let type ← (v.get? "type").bind Value.str?
  match v.get? "target" with
  | none => some { path, content, type }
  | some target => target.str?.map fun target => { path, content, type, target := some target }

def filesOf? : Value → Option (List BlockFile)
  | .arr items => items.mapM BlockFile.ofJson?
  | _ => none

def Block.ofJson? (v : Value) : Option Block := do
  let name ← (v.get? "name").bind Value.str?
  let type ← (v.get? "type").bind Value.str?
  let dependencies ← (v.get? "dependencies").bind namesOf?
  let devDependencies ← (v.get? "devDependencies").bind namesOf?
  let registryDependencies ← (v.get? "registryDependencies").bind namesOf?
  let files ← (v.get? "files").bind filesOf?
  let tailwind ← (v.get? "tailwind").bind membersOf?
  let cssVars ← (v.get? "cssVars").bind membersOf?
  let extra ← (v.get? "meta").bind membersOf?
  return { name, type, dependencies, devDependencies, registryDependencies, files, tailwind,
           cssVars, extra }

theorem mapM_map_eq_some {α β : Type} {f : α → β} {g : β → Option α} (h : ∀ a, g (f a) = some a)
    (items : List α) : (items.map f).mapM g = some items := by
  induction items with
  | nil => rfl
  | cons a items ih => rw [List.map_cons, List.mapM_cons, h, ih]; rfl

theorem namesOf?_namesToJson (names : List String) :
    namesOf? (Block.namesToJson names) = some names := by
  have hstr (name : String) : (Value.str name).str? = some name := rfl
  exact mapM_map_eq_some hstr names

theorem isExact_namesToJson (names : List String) : (Block.namesToJson names).IsExact := by
  refine .arr fun v hv => ?_
  obtain ⟨name, -, rfl⟩ := List.mem_map.1 hv
  exact .str name

namespace BlockFile

theorem ofJson?_toJson (file : BlockFile) : ofJson? file.toJson = some file := by
  obtain ⟨path, content, type, target⟩ := file
  cases target <;> rfl

theorem target_not_mem_keys_toJson_iff (file : BlockFile) :
    "target" ∉ file.toJson.keys ↔ file.target = none := by
  obtain ⟨path, content, type, target⟩ := file
  cases target <;> simp [toJson, Value.keys, Value.members]

theorem isExact_toJson (file : BlockFile) : file.toJson.IsExact := by
  obtain ⟨path, content, type, target⟩ := file
  cases target with
  | none =>
    have hkeys : ["path", "content", "type"].Nodup := by decide
    refine .obj hkeys ?_
    simp only [Option.map_none, Option.toList_none, List.append_nil, List.forall_mem_cons]
    exact ⟨.str _, .str _, .str _, List.forall_mem_nil _⟩
  | some target =>
    have hkeys : ["path", "content", "type", "target"].Nodup := by decide
    refine .obj hkeys ?_
    simp only [Option.map_some, Option.toList_some, List.cons_append, List.nil_append,
      List.forall_mem_cons]
    exact ⟨.str _, .str _, .str _, .str _, List.forall_mem_nil _⟩

end BlockFile

/-- A block whose free objects a text keeps exactly. -/
structure Block.IsExact (block : Block) : Prop where
  tailwind : (Value.obj block.tailwind).IsExact
  cssVars : (Value.obj block.cssVars).IsExact
  extra : (Value.obj block.extra).IsExact

namespace Block

theorem ofJson?_toJson (block : Block) : ofJson? block.toJson = some block := by
  have hname : block.toJson.get? "name" = some (.str block.name) := rfl
  have htype : block.toJson.get? "type" = some (.str block.type) := rfl
  have hdependencies : block.toJson.get? "dependencies" =
    some (namesToJson block.dependencies) := rfl
  have hdevDependencies : block.toJson.get? "devDependencies" =
    some (namesToJson block.devDependencies) := rfl
  have hregistryDependencies : block.toJson.get? "registryDependencies" =
    some (namesToJson block.registryDependencies) := rfl
  have hfiles : block.toJson.get? "files" =
    some (.arr (block.files.map BlockFile.toJson)) := rfl
  have htailwind : block.toJson.get? "tailwind" = some (.obj block.tailwind) := rfl
  have hcssVars : block.toJson.get? "cssVars" = some (.obj block.cssVars) := rfl
  have hextra : block.toJson.get? "meta" = some (.obj block.extra) := rfl
  have hread : filesOf? (.arr (block.files.map BlockFile.toJson)) = some block.files :=
    mapM_map_eq_some BlockFile.ofJson?_toJson block.files
  simp only [ofJson?, hname, htype, hdependencies, hdevDependencies, hregistryDependencies, hfiles,
    htailwind, hcssVars, hextra, Option.bind_some, namesOf?_namesToJson, hread]
  rfl

theorem isExact_toJson {block : Block} (h : block.IsExact) : block.toJson.IsExact := by
  have hkeys : ["name", "type", "dependencies", "devDependencies", "registryDependencies", "files",
    "tailwind", "cssVars", "meta"].Nodup := by decide
  refine .obj hkeys ?_
  simp only [List.forall_mem_cons]
  refine ⟨.str _, .str _, isExact_namesToJson _, isExact_namesToJson _, isExact_namesToJson _,
    .arr fun v hv => ?_, h.tailwind, h.cssVars, h.extra, List.forall_mem_nil _⟩
  obtain ⟨file, -, rfl⟩ := List.mem_map.1 hv
  exact file.isExact_toJson

/-- Reading the text of a block, in any layout, gives a document with the keys of a block in their
order. The block can be had back from it, and the entry of a file lacks a target exactly when the
file has none. -/
theorem exists_parse_render {block : Block} (h : block.IsExact) (layout : Json.Layout) :
    ∃ document, Json.parse (block.render layout) = .ok document ∧
      document.keys = ["name", "type", "dependencies", "devDependencies", "registryDependencies",
        "files", "tailwind", "cssVars", "meta"] ∧
      ofJson? document = some block ∧
      ∃ entries, document.get? "files" = some (.arr entries) ∧
        List.Forall₂ (fun entry file => "target" ∉ entry.keys ↔ file.target = none) entries
          block.files := by
  refine ⟨block.toJson, Json.parse_render (isExact_toJson h) layout, rfl, ofJson?_toJson block, ?_⟩
  refine ⟨block.files.map BlockFile.toJson, rfl, ?_⟩
  rw [List.forall₂_map_left_iff, List.forall₂_same]
  exact fun file _ => file.target_not_mem_keys_toJson_iff

theorem exists_parse_render_theme :
    let block : Block :=
      { name := "the \"theme\"\n"
        dependencies := ["clsx"]
        files := [⟨"./lib/a.ts", "\x01\\", "registry:lib", none⟩,
          ⟨"./app/page.tsx", "é", "registry:page", some "./app/page.tsx"⟩]
        cssVars := [("light", .obj [("radius", .int (-8)), ("dark", .arr [.bool true, .null])])] }
    block.IsExact ∧ ∃ document, Json.parse (block.render (.lines 2)) = .ok document ∧
      ofJson? document = some block := by
  intro block
  have hlight :
      (Value.obj [("radius", .int (-8)), ("dark", .arr [.bool true, .null])]).IsExact := by
    refine .obj (by decide) ?_
    simp only [List.forall_mem_cons]
    refine ⟨.int _, .arr ?_, List.forall_mem_nil _⟩
    simp only [List.forall_mem_cons]
    exact ⟨.bool true, .null, List.forall_mem_nil _⟩
  have hempty : (Value.obj []).IsExact := .obj List.nodup_nil (List.forall_mem_nil _)
  have hexact : block.IsExact :=
    { tailwind := hempty
      cssVars := .obj (by decide) (List.forall_mem_singleton.2 hlight)
      extra := hempty }
  obtain ⟨document, hparse, -, hread, -⟩ := exists_parse_render hexact (.lines 2)
  exact ⟨hexact, document, hparse, hread⟩

end Block

end RegistryBlock
