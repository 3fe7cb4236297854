import ShardedCache.Proofs.Json.Reading
import ShardedCache.Proofs.Json.Writing
import ShardedCache.Proofs.Octets.Text
import ShardedCache.Proofs.Settings.Decisions

namespace ShardedCache

namespace Settings

def documentOf? (content : Option Octets) : Option Json :=
  (content.bind fun bs => String.fromUTF8? bs.toByteArray).bind fun text => Json.read? text.toList

theorem documentOf?_text (text : String) : documentOf? (some text.toUTF8.toList) = Json.read? text.toList := by
  rw [documentOf?, Option.bind_some, Octets.fromUTF8?_toUTF8, Option.bind_some]

theorem ofFile_eq_ok_iff {path : String} {content : Option Octets} {s : Settings} :
    ofFile path content = .ok s ↔ ∃ document, documentOf? content = some document ∧
      ofJson? document = some s := by
  rw [ofFile, documentOf?]
  cases content.bind fun bs => String.fromUTF8? bs.toByteArray with
  | none => simp
  | some text =>
    simp only [ofText?, Option.bind_some]
    cases Json.read? text.toList with
    | none => simp
    | some document =>
      cases hjson : ofJson? document <;> simp [hjson]

namespace Field

theorem change?_json (s : Settings) (field : Field) : field.change? (field.json s) = some (s.decision field) := by
  cases field <;>
    simp only [json, change?, decision, Json.text?_ofText, Json.word?_ofNat, Json.texts?_ofTexts,
      Option.map_some]

theorem json_spells (s : Settings) (field : Field) : (field.json s).Spells (field.json s).compact := by
  cases field
  case listenAddress => exact Json.ofText_spells s.listenAddress
  case backends =>
    apply Json.array_spells
    intro item hitem
    obtain ⟨text, -, rfl⟩ := List.mem_map.mp hitem
    exact Json.ofText_spells text
  all_goals exact Json.ofNat_spells _

/-- The names need no escapes. -/
theorem name_pieces (field : Field) :
    field.name.toList.map Piece.char = field.name.toList.map Piece.ofChar := by
  cases field <;> decide

theorem text?_name (field : Field) :
    Piece.text? (field.name.toList.map Piece.char) = some field.name.toList := by
  rw [name_pieces, Piece.text?_ofChars]

theorem member_spells (field : Field) {value : Json} (h : value.Spells value.compact) :
    Json.SpellsPieces (field.name.toList.map Piece.char) ((field.name.toList.map Piece.char).flatMap Piece.written) ∧
      value.Spells value.compact := by
  refine ⟨?_, h⟩
  rw [name_pieces]
  exact Piece.written_ofChars field.name.toList

end Field

theorem json_document (s : Settings) : Json.Document s.json s.toText.toList := by
  have hspells : s.json.Spells s.json.compact := by
    apply Json.object_spells
    intro member hmember
    obtain ⟨field, -, rfl⟩ := List.mem_map.mp hmember
    exact field.member_spells (field.json_spells s)
  have hdocument := Json.Document.mk Json.blanks_nil hspells Json.blanks_nil
  rwa [List.nil_append, List.append_nil, ← String.toList_ofList (l := s.json.compact)] at hdocument

theorem named_json (s : Settings) (fields : List Field) :
    (fields.map fun field => (field.name.toList.map Piece.char, field.json s)).mapM
        (fun (key, value) => (Piece.text? key).map fun name => (name, value)) =
      some (fields.map fun field => (field.name.toList, field.json s)) := by
  induction fields with
  | nil => rfl
  | cons field fields ih => simp [ih, Field.text?_name]

theorem known_json (s : Settings) (fields : List Field) :
    known (fields.map fun field => (field.name.toList, field.json s)) =
      fields.map fun field => (field, field.json s) := by
  induction fields with
  | nil => rfl
  | cons field fields ih =>
    have hname : Field.ofName? (String.ofList field.name.toList) = some field := by
      rw [Field.ofName?_eq_some_iff, String.ofList_toList]
    rw [known] at ih
    simp only [known, List.map_cons, List.filterMap_cons, hname, Option.map_some, ih]

theorem changes_json (s : Settings) (fields : List Field) :
    (fields.map fun field => (field, field.json s)).mapM (fun (field, value) => field.change? value) =
      some (fields.map s.decision) := by
  induction fields with
  | nil => rfl
  | cons field fields ih => simp [ih, Field.change?_json]

theorem ofJson?_json (s : Settings) : ofJson? s.json = some s := by
  have hdistinct : ((Field.all.map fun field => (field, field.json s)).map (·.1)).Nodup := by
    rw [List.map_map]
    exact (by decide : (Field.all.map id).Nodup)
  have hchanges : changesOfMembers?
      (Field.all.map fun field => (field.name.toList.map Piece.char, field.json s)) =
        some (Field.all.map s.decision) := by
    rw [changesOfMembers?_of_named (named_json s Field.all), known_json, if_pos hdistinct, changes_json]
  rw [json, ofJson?, hchanges, Option.map_some]
  refine congrArg some (ext_decision fun field => ?_)
  have hfollows := follows_applyAll (s := {}) (changes_json s Field.all) hdistinct field
  have hlookup : (Field.all.map fun field => (field, field.json s)).lookup field = some (field.json s) := by
    cases field <;> rfl
  rw [hlookup] at hfollows
  exact Option.some.inj (hfollows.symm.trans (field.change?_json s))

/-- Settings written to a file are read back from it. -/
theorem ofFile_toText (s : Settings) (path : String) :
    ofFile path (some s.toText.toUTF8.toList) = .ok s := by
  rw [ofFile_eq_ok_iff, documentOf?_text, Json.read?_of_document s.json_document]
  exact ⟨s.json, rfl, s.ofJson?_json⟩

end Settings

end ShardedCache
