import RegistryBlock.Block.Assembly
import RegistryBlock.Proofs.Block.Document
import RegistryBlock.Proofs.Json.Written

/-!
# What stands in the text of a block

The text of a block tells the block, and it is longer than every text of a file in it.
-/

namespace RegistryBlock

open Json (Value)

theorem BlockFile.has_toJson (file : BlockFile) : Value.Has file.content file.toJson :=
  .member (m := ("content", .str file.content)) (List.mem_append_left _ (by simp)) .str

namespace Block

variable {block other : Block}

theorem render_injective (h : block.IsExact) (hother : other.IsExact) {layout : Json.Layout}
    (heq : block.render layout = other.render layout) : block = other := by
  have hblock : Json.parse (block.render layout) = .ok block.toJson :=
    Json.parse_render (isExact_toJson h) layout
  have hsame : Json.parse (other.render layout) = .ok other.toJson :=
    Json.parse_render (isExact_toJson hother) layout
  rw [heq, hsame] at hblock
  have hread := congrArg ofJson? (Except.ok.inj hblock)
  rw [ofJson?_toJson, ofJson?_toJson] at hread
  exact (Option.some.inj hread).symm

theorem has_toJson {file : BlockFile} (h : file ∈ block.files) :
    Value.Has file.content block.toJson := by
  have hitem : Value.Has file.content (.arr (block.files.map BlockFile.toJson)) :=
    .item (List.mem_map_of_mem h) file.has_toJson
  exact .member (m := ("files", .arr (block.files.map BlockFile.toJson))) (by simp) hitem

theorem length_content_lt_length_render {file : BlockFile} (h : file ∈ block.files)
    (layout : Json.Layout) : file.content.length < (block.render layout).length := by
  rw [render, Value.render, String.length_ofList]
  exact Json.length_lt_length_write (has_toJson h) layout 0

theorem return_not_mem_render (h : block.IsExact) (layout : Json.Layout) :
    '\r' ∉ (block.render layout).toList := by
  rw [render, Value.render, String.toList_ofList]
  exact Json.return_not_mem_write (isExact_toJson h) layout 0

theorem isExact_ofFiles (name : String) (settings : AliasSettings)
    (members project : List SourceFile) (manifest : Manifest) :
    (ofFiles name settings members project manifest).IsExact := by
  have hempty : (Value.obj []).IsExact := .obj List.nodup_nil (List.forall_mem_nil _)
  exact ⟨hempty, hempty, hempty⟩

end Block

end RegistryBlock
