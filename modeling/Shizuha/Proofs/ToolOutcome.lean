import Shizuha.Js.JsonRoundTrip
import Shizuha.State.ToolJournal

/-!
# A result comes back from its column

Results are written as JSON and read back field by field. The keys are the
program's own, so they are in property order, and reading a field of what was
written is reading the field of the result.
-/

namespace Shizuha.State

open Js Agent

theorem optField_keys (key : String) (v : Option Json) :
    ((optField key v).map Prod.fst).Sublist [js key] := by
  cases v with
  | none => exact List.nil_sublist _
  | some v => exact List.Sublist.refl _

/-- The keys of a written result. -/
def resultKeys : List Text :=
  ["toolUseId", "content", "isError", "metadata", "image", "durationMs"].map js

def imageKeys : List Text := ["base64", "mediaType"].map js

theorem keys_plain : (resultKeys.Nodup ∧ ∀ k ∈ resultKeys, indexKey k = none) ∧
    imageKeys.Nodup ∧ ∀ k ∈ imageKeys, indexKey k = none := by
  decide +kernel

theorem field_map {key : String} {fields : List (Text × Json)} {g : Json → Json} :
    field key (.obj (fields.map fun f => (f.1, g f.2))) = (field key (.obj fields)).map g := by
  rw [field, field, List.find?_map, Option.map_map, Option.map_map]
  rfl

theorem field_image (i : ImageData) :
    field "base64" i.toJson = some (.str i.base64) ∧
      field "mediaType" i.toJson = some (.str i.mediaType) := ⟨rfl, rfl⟩

theorem field_result (r : ToolResult) :
    field "toolUseId" r.toJson = some (.str r.toolUseId) ∧
      field "content" r.toJson = some (.str r.content) ∧
      field "isError" r.toJson = r.isError.map .bool ∧
      field "image" r.toJson = r.image.map ImageData.toJson := by
  obtain ⟨id, content, isError, metadata, image, duration⟩ := r
  cases isError <;> cases metadata <;> cases image <;> cases duration <;>
    exact ⟨rfl, rfl, rfl, rfl⟩

theorem field_reread_result (r : ToolResult) (key : String) :
    field key r.toJson.nullify.normalize =
      (field key r.toJson).map fun v => v.nullify.normalize := by
  obtain ⟨⟨hnodup, hindex⟩, -⟩ := keys_plain
  rw [ToolResult.toJson, normalize_nullify_obj resultKeys _ hnodup hindex]
  · exact field_map (g := fun v => v.nullify.normalize)
  · simp only [List.map_append]
    exact (((((List.Sublist.refl _).append (optField_keys _ _)).append (optField_keys _ _)).append
      (optField_keys _ _)).append (optField_keys _ _))

theorem readImage_toJson (i : ImageData) : readImage i.toJson.nullify.normalize = some i := by
  obtain ⟨-, hnodup, hindex⟩ := keys_plain
  have hread (key : String) : field key i.toJson.nullify.normalize =
      (field key i.toJson).map fun v => v.nullify.normalize := by
    rw [ImageData.toJson, normalize_nullify_obj imageKeys (List.Sublist.refl _) hnodup
      hindex]
    exact field_map (g := fun v => v.nullify.normalize)
  obtain ⟨hbase, hmedia⟩ := field_image i
  simp only [readImage, textField, hread, hbase, hmedia, Option.map_some, Json.nullify,
    Json.normalize]
  rfl

theorem readOutcome_toJson (r : ToolResult) : readOutcome r.toJson.print = some r.outcome := by
  obtain ⟨hid, hcontent, hisError, himage⟩ := field_result r
  have htextId : textField "toolUseId" r.toJson.nullify.normalize = some r.toolUseId := by
    rw [textField, field_reread_result, hid]
    rfl
  have htextContent : textField "content" r.toJson.nullify.normalize = some r.content := by
    rw [textField, field_reread_result, hcontent]
    rfl
  have hbool : boolField "isError" r.toJson.nullify.normalize = r.isError := by
    rw [boolField, field_reread_result, hisError]
    cases r.isError <;> rfl
  have hpicture : (field "image" r.toJson.nullify.normalize).bind readImage = r.image := by
    rw [field_reread_result, himage]
    cases r.image with
    | none => rfl
    | some i => exact readImage_toJson i
  simp only [readOutcome, parse_print, Option.bind_eq_bind, Option.bind_some, htextId,
    htextContent, hbool, hpicture]
  rfl

end Shizuha.State
