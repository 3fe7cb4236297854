import Mathlib.Data.List.Forall2
import Mathlib.Data.List.Nodup
import ShardedCache.Proofs.Settings.RoundTrip

namespace ShardedCache

namespace Json

def IsText (value : Json) (text : String) : Prop :=
  ∃ pieces, value = .string pieces ∧ Piece.text? pieces = some text.toList

/-- The value is a number in decimal digits and nothing else. -/
def IsWord (value : Json) (n : UInt64) : Prop :=
  ∃ literal, value = .number literal ∧ (∀ c ∈ literal, c.isDigit = true) ∧
    Nat.ofDigitChars 10 literal 0 = n.toNat

def IsTexts (value : Json) (texts : List String) : Prop :=
  ∃ items, value = .array items ∧ List.Forall₂ IsText items texts

theorem text?_eq_some_iff {value : Json} {text : String} : value.text? = some text ↔ value.IsText text := by
  constructor
  · intro h
    cases value with
    | string pieces =>
      obtain ⟨cs, hcs, rfl⟩ := Option.map_eq_some_iff.mp h
      exact ⟨pieces, rfl, by rw [hcs, String.toList_ofList]⟩
    | null | boolean | number | array | object => cases h
  · rintro ⟨pieces, rfl, hpieces⟩
    rw [text?, hpieces, Option.map_some, String.ofList_toList]

theorem word?_eq_some_iff {value : Json} {n : UInt64} : value.word? = some n ↔ value.IsWord n := by
  have hfold : ∀ literal : List Char,
      literal.foldl (fun value c => value * 10 + (c.toNat - '0'.toNat)) 0 =
        Nat.ofDigitChars 10 literal 0 := by
    intro literal
    simp only [Nat.ofDigitChars_eq_foldl, Nat.mul_comm]
  constructor
  · intro h
    cases value with
    | number literal =>
      simp only [word?, hfold, Option.ite_none_right_eq_some, Option.some.injEq, List.all_eq_true] at h
      obtain ⟨hdigits, hlt, rfl⟩ := h
      exact ⟨literal, rfl, hdigits, (UInt64.toNat_ofNat_of_lt' hlt).symm⟩
    | null | boolean | string | array | object => cases h
  · rintro ⟨literal, rfl, hdigits, hvalue⟩
    have hlt : n.toNat < UInt64.size := n.toNat_lt
    simp only [word?, hfold, hvalue, List.all_eq_true.mpr hdigits, if_true, if_pos hlt, UInt64.ofNat_toNat]

theorem mapM_text?_eq_some_iff {items : List Json} {texts : List String} :
    items.mapM text? = some texts ↔ List.Forall₂ IsText items texts := by
  induction items generalizing texts with
  | nil => simp [eq_comm]
  | cons item items ih =>
    simp only [List.mapM_cons, Option.bind_eq_bind, Option.bind_eq_some_iff, Option.pure_def,
      Option.some.injEq, List.forall₂_cons_left_iff, text?_eq_some_iff, ih]
    constructor
    · rintro ⟨text, htext, rest, hrest, rfl⟩
      exact ⟨text, rest, htext, hrest, rfl⟩
    · rintro ⟨text, rest, htext, hrest, rfl⟩
      exact ⟨text, htext, rest, hrest, rfl⟩

theorem texts?_eq_some_iff {value : Json} {texts : List String} :
    value.texts? = some texts ↔ value.IsTexts texts := by
  constructor
  · intro h
    cases value with
    | array items => exact ⟨items, rfl, mapM_text?_eq_some_iff.mp h⟩
    | null | boolean | number | string | object => cases h
  · rintro ⟨items, rfl, hitems⟩
    exact mapM_text?_eq_some_iff.mpr hitems

end Json

namespace Settings

/-- The value is of the type of the field, and the change sets the field to it. -/
def Change.WrittenAs (value : Json) : Change → Prop
  | .listenAddress address => value.IsText address
  | .maxConnections count => value.IsWord count
  | .readTimeout milliseconds => value.IsWord milliseconds
  | .writeTimeout milliseconds => value.IsWord milliseconds
  | .maxBodyLength octets => value.IsWord octets
  | .backend _ => False
  | .backends addresses => value.IsTexts addresses
  | .backendTimeout milliseconds => value.IsWord milliseconds
  | .sweepInterval milliseconds => value.IsWord milliseconds
  | .idleLifetime milliseconds => value.IsWord milliseconds

theorem Field.change?_eq_some_iff {field : Field} {value : Json} {change : Change} :
    field.change? value = some change ↔ change.field = field ∧ change.WrittenAs value := by
  cases field <;> cases change <;>
    simp [change?, Change.field, Change.WrittenAs, Json.text?_eq_some_iff, Json.word?_eq_some_iff,
      Json.texts?_eq_some_iff]

theorem Change.WrittenAs.replaces {value : Json} {change : Change} (h : change.WrittenAs value) :
    change.replaces = true :=
  (Field.field_of_change? (Field.change?_eq_some_iff.mpr ⟨rfl, h⟩)).2

/-- The changes that the members of an object state.  Every key has to write a text, since no other is a name, but the
value of a member that names no field may be anything. -/
inductive StatedBy : List (List Piece × Json) → List Change → Prop where
  | nil : StatedBy [] []
  | decides {key : List Piece} {value : Json} {change : Change} {members : List (List Piece × Json)}
    {changes : List Change} (hname : Piece.text? key = some change.field.name.toList)
    (hvalue : change.WrittenAs value) (h : StatedBy members changes) :
    StatedBy ((key, value) :: members) (change :: changes)
  | skipped {key : List Piece} {value : Json} {name : List Char} {members : List (List Piece × Json)}
    {changes : List Change} (hname : Piece.text? key = some name)
    (hother : ∀ field : Field, name ≠ field.name.toList) (h : StatedBy members changes) :
    StatedBy ((key, value) :: members) changes

/-- The changes that a document states: an object by its members, an array by its items for the first fields. -/
def States : Json → List Change → Prop
  | .object members, changes => StatedBy members changes
  | .array items, changes =>
    List.Forall₂ (fun item change => change.WrittenAs item) items changes ∧
      changes.map Change.field <+: Field.all
  | _, _ => False

theorem Field.ofName?_ofList {name : List Char} {field : Field} :
    ofName? (String.ofList name) = some field ↔ name = field.name.toList := by
  rw [ofName?_eq_some_iff, ← String.toList_inj, String.toList_ofList]

theorem StatedBy.read {members : List (List Piece × Json)} {changes : List Change}
    (h : StatedBy members changes) : ∃ named,
      members.mapM (fun (key, value) => (Piece.text? key).map fun name => (name, value)) = some named ∧
      (known named).mapM (fun (field, value) => field.change? value) = some changes := by
  induction h with
  | nil => exact ⟨[], rfl, rfl⟩
  | @decides key value change members changes hname hvalue h ih =>
    obtain ⟨named, hnamed, hchanges⟩ := ih
    have hfound : Field.ofName? (String.ofList change.field.name.toList) = some change.field :=
      Field.ofName?_ofList.mpr rfl
    have hknown : known ((change.field.name.toList, value) :: named) =
        (change.field, value) :: known named := by
      simp only [known, List.filterMap_cons, hfound, Option.map_some]
    have hchange : change.field.change? value = some change := Field.change?_eq_some_iff.mpr ⟨rfl, hvalue⟩
    refine ⟨(change.field.name.toList, value) :: named, ?_, ?_⟩
    · simp [hname, hnamed]
    · simp [hknown, hchange, hchanges]
  | @skipped key value name members changes hname hother h ih =>
    obtain ⟨named, hnamed, hchanges⟩ := ih
    have hnone : Field.ofName? (String.ofList name) = none := by
      rw [Option.eq_none_iff_forall_ne_some]
      exact fun field hfield => hother field (Field.ofName?_ofList.mp hfield)
    have hknown : known ((name, value) :: named) = known named := by
      simp only [known, List.filterMap_cons, hnone, Option.map_none]
    refine ⟨(name, value) :: named, ?_, ?_⟩
    · simp [hname, hnamed]
    · rw [hknown, hchanges]

theorem statedBy_of_read {members : List (List Piece × Json)} {named : List (List Char × Json)}
    {changes : List Change}
    (hnamed : members.mapM (fun (key, value) => (Piece.text? key).map fun name => (name, value)) = some named)
    (hchanges : (known named).mapM (fun (field, value) => field.change? value) = some changes) :
    StatedBy members changes := by
  induction members generalizing named changes with
  | nil =>
    obtain rfl := Option.some.inj hnamed
    obtain rfl := Option.some.inj hchanges
    exact .nil
  | cons member members ih =>
    obtain ⟨key, value⟩ := member
    simp only [List.mapM_cons, Option.bind_eq_bind, Option.bind_eq_some_iff, Option.pure_def,
      Option.some.injEq, Option.map_eq_some_iff] at hnamed
    obtain ⟨_, ⟨name, hname, rfl⟩, rest, hrest, rfl⟩ := hnamed
    cases hfound : Field.ofName? (String.ofList name) with
    | none =>
      have hother : ∀ field : Field, name ≠ field.name.toList := by
        intro field hfield
        rw [Field.ofName?_ofList.mpr hfield] at hfound
        cases hfound
      simp only [known, List.filterMap_cons, hfound, Option.map_none] at hchanges
      exact .skipped hname hother (ih hrest hchanges)
    | some field =>
      obtain rfl := Field.ofName?_ofList.mp hfound
      simp only [known, List.filterMap_cons, hfound, Option.map_some, List.mapM_cons, Option.bind_eq_bind,
        Option.bind_eq_some_iff, Option.pure_def, Option.some.injEq] at hchanges
      obtain ⟨change, hchange, others, hothers, rfl⟩ := hchanges
      obtain ⟨rfl, hvalue⟩ := Field.change?_eq_some_iff.mp hchange
      exact .decides hname hvalue (ih hrest hothers)

theorem changesOfMembers?_eq_some_iff {members : List (List Piece × Json)} {changes : List Change} :
    changesOfMembers? members = some changes ↔
      StatedBy members changes ∧ (changes.map Change.field).Nodup := by
  constructor
  · intro h
    obtain ⟨named, hnamed, -⟩ := Option.bind_eq_some_iff.mp h
    rw [changesOfMembers?_of_named hnamed, Option.ite_none_right_eq_some] at h
    obtain ⟨hdistinct, hchanges⟩ := h
    obtain ⟨hfields, -, -⟩ := changes_of_known hchanges
    exact ⟨statedBy_of_read hnamed hchanges, hfields ▸ hdistinct⟩
  · rintro ⟨hstated, hdistinct⟩
    obtain ⟨named, hnamed, hchanges⟩ := hstated.read
    obtain ⟨hfields, -, -⟩ := changes_of_known hchanges
    rw [changesOfMembers?_of_named hnamed, ← hfields, if_pos hdistinct, hchanges]

theorem mapM_zip_eq_some_iff {fields : List Field} {items : List Json} {changes : List Change} :
    items.length ≤ fields.length ∧
        (fields.zip items).mapM (fun (field, value) => field.change? value) = some changes ↔
      List.Forall₂ (fun item change => change.WrittenAs item) items changes ∧
        changes.map Change.field <+: fields := by
  induction items generalizing fields changes with
  | nil =>
    simp only [List.length_nil, Nat.zero_le, List.zip_nil_right, List.mapM_nil, Option.pure_def,
      Option.some.injEq, true_and, List.forall₂_nil_left_iff]
    constructor
    · rintro rfl
      exact ⟨rfl, List.nil_prefix⟩
    · exact fun h => h.1.symm
  | cons item items ih =>
    cases fields with
    | nil =>
      constructor
      · rintro ⟨hlength, -⟩
        cases hlength
      · rintro ⟨hitems, hfields⟩
        obtain ⟨change, rest, -, -, rfl⟩ := List.forall₂_cons_left_iff.mp hitems
        cases List.prefix_nil.mp hfields
    | cons field fields =>
      have hmore := @ih fields
      simp only [List.length_cons, Nat.add_le_add_iff_right, List.zip_cons_cons, List.mapM_cons,
        Option.bind_eq_bind, Option.bind_eq_some_iff, Option.pure_def, Option.some.injEq,
        List.forall₂_cons_left_iff, Field.change?_eq_some_iff]
      constructor
      · rintro ⟨hlength, change, ⟨hfield, hvalue⟩, rest, hrest, rfl⟩
        obtain ⟨hitems, hfields⟩ := hmore.mp ⟨hlength, hrest⟩
        refine ⟨⟨change, rest, hvalue, hitems, rfl⟩, ?_⟩
        rw [List.map_cons, List.cons_prefix_cons]
        exact ⟨hfield, hfields⟩
      · rintro ⟨⟨change, rest, hvalue, hitems, rfl⟩, hprefix⟩
        rw [List.map_cons, List.cons_prefix_cons] at hprefix
        obtain ⟨hfield, hfields⟩ := hprefix
        obtain ⟨hlength, hrest⟩ := hmore.mpr ⟨hitems, hfields⟩
        exact ⟨hlength, change, ⟨hfield, hvalue⟩, rest, hrest, rfl⟩

theorem changesOfItems?_eq_some_iff {items : List Json} {changes : List Change} :
    changesOfItems? items = some changes ↔ States (.array items) changes := by
  rw [changesOfItems?, Option.ite_none_right_eq_some]
  exact mapM_zip_eq_some_iff

theorem States.distinct {items : List Json} {changes : List Change} (h : States (.array items) changes) :
    (changes.map Change.field).Nodup := by
  have hall : Field.all.Nodup := by decide
  exact hall.sublist h.2.sublist

/-- A document is accepted exactly if it states changes to different fields, and it means these changes. -/
theorem ofJson?_eq_some_iff {document : Json} {s : Settings} :
    ofJson? document = some s ↔ ∃ changes, States document changes ∧ (changes.map Change.field).Nodup ∧
      ({} : Settings).applyAll changes = s := by
  cases document with
  | object members =>
    simp only [ofJson?, Option.map_eq_some_iff, changesOfMembers?_eq_some_iff, and_assoc]
    exact Iff.rfl
  | array items =>
    simp only [ofJson?, Option.map_eq_some_iff, changesOfItems?_eq_some_iff]
    constructor
    · rintro ⟨changes, hstates, happly⟩
      exact ⟨changes, hstates, hstates.distinct, happly⟩
    · rintro ⟨changes, hstates, -, happly⟩
      exact ⟨changes, hstates, happly⟩
  | null | boolean | number | string => simp [ofJson?, States]

theorem States.replaces {document : Json} {changes : List Change} (h : States document changes) :
    ∀ change ∈ changes, change.replaces = true := by
  cases document with
  | object members =>
    change StatedBy members changes at h
    induction h with
    | nil => exact nofun
    | decides _ hvalue _ ih => exact List.forall_mem_cons.mpr ⟨hvalue.replaces, ih⟩
    | skipped _ _ _ ih => exact ih
  | array items =>
    obtain ⟨hitems, -⟩ := h
    induction hitems with
    | nil => exact nofun
    | cons hvalue _ ih => exact List.forall_mem_cons.mpr ⟨hvalue.replaces, ih⟩
  | null | boolean | number | string => exact h.elim

theorem StatedBy.count {members : List (List Piece × Json)} {changes : List Change}
    (h : StatedBy members changes) (field : Field) :
    members.countP (fun member => Piece.text? member.1 = some field.name.toList) =
      (changes.map Change.field).count field := by
  induction h with
  | nil => rfl
  | @decides key value change members changes hname hvalue h ih =>
    have hsame : Piece.text? key = some field.name.toList ↔ change.field = field := by
      rw [hname, Option.some.injEq, ← Field.ofName?_ofList, Field.ofName?_ofList.mpr rfl, Option.some.injEq]
    simp only [List.countP_cons, List.map_cons, List.count_cons, ih, hsame, decide_eq_true_eq, beq_iff_eq]
  | @skipped key value name members changes hname hother h ih =>
    have hskip : Piece.text? key ≠ some field.name.toList := by
      rw [hname]
      exact fun h => hother field (Option.some.inj h)
    rw [List.countP_cons_of_neg (by simpa using hskip), ih]

theorem applyAll_perm {changes : List Change} (hreplaces : ∀ change ∈ changes, change.replaces = true)
    (s : Settings) (hdistinct : (changes.map Change.field).Nodup) {order : List Change}
    (hperm : order.Perm changes) : s.applyAll order = s.applyAll changes := by
  have hreplaces' : ∀ change ∈ order, change.replaces = true :=
    fun change h => hreplaces change (hperm.mem_iff.mp h)
  have hfields : (order.map Change.field).Perm (changes.map Change.field) := hperm.map _
  have hdistinct' : (order.map Change.field).Nodup := hfields.nodup_iff.mpr hdistinct
  apply ext_decision
  intro field
  by_cases hmem : field ∈ changes.map Change.field
  · obtain ⟨change, hchange, rfl⟩ := List.mem_map.mp hmem
    rw [decision_applyAll_of_mem hreplaces' s hdistinct' (hperm.mem_iff.mpr hchange),
      decision_applyAll_of_mem hreplaces s hdistinct hchange]
  · rw [decision_applyAll_of_not_mem hreplaces' s fun h => hmem (hfields.mem_iff.mp h),
      decision_applyAll_of_not_mem hreplaces s hmem]

theorem ofFile_of_document {text : String} {document : Json} (hdocument : Json.Document document text.toList)
    (path : String) : ofFile path (some text.toUTF8.toList) =
      ((ofJson? document).elim (.error (.settings (.malformed path))) .ok) := by
  rw [ofFile, Option.bind_some, Octets.fromUTF8?_toUTF8]
  simp only [ofText?, Json.read?_of_document hdocument, Option.bind_some]
  cases ofJson? document <;> rfl

/-- A file means the defaults with the changes that its document states.  Neither the order of the members nor what
stands between them, nor whether the document is an object or an array makes a difference, and the changes may be made
one by one in any order.  A document that names a field twice is refused whatever the values are. -/
theorem ofFile_of_layout {text : String} {document : Json} (hdocument : Json.Document document text.toList)
    (path : String) :
    (∀ changes, States document changes → (changes.map Change.field).Nodup →
      ∃ s, ofFile path (some text.toUTF8.toList) = .ok s ∧
        (∀ change ∈ changes, s.decision change.field = change) ∧
        (∀ field ∉ changes.map Change.field, s.decision field = ({} : Settings).decision field) ∧
        (∀ order, order.Perm changes → ({} : Settings).applyAll order = s) ∧
        ∀ (other : String) (layout : Json) (same : List Change), Json.Document layout other.toList →
          States layout same → same.Perm changes → ofFile path (some other.toUTF8.toList) = .ok s) ∧
    ∀ members (field : Field), document = .object members →
      2 ≤ members.countP (fun member => Piece.text? member.1 = some field.name.toList) →
      ofFile path (some text.toUTF8.toList) = .error (.settings (.malformed path)) := by
  constructor
  · intro changes hstates hdistinct
    have hreplaces := hstates.replaces
    have hmeans : ∀ {other : String} {layout : Json} {same : List Change},
        Json.Document layout other.toList → States layout same → same.Perm changes →
        ofFile path (some other.toUTF8.toList) = .ok (({} : Settings).applyAll changes) := by
      intro other layout same hother hsame hperm
      have hdistinct' : (same.map Change.field).Nodup := (hperm.map _).nodup_iff.mpr hdistinct
      have hjson : ofJson? layout = some (({} : Settings).applyAll changes) :=
        ofJson?_eq_some_iff.mpr ⟨same, hsame, hdistinct', applyAll_perm hreplaces {} hdistinct hperm⟩
      rw [ofFile_of_document hother, hjson, Option.elim_some]
    refine ⟨({} : Settings).applyAll changes, hmeans hdocument hstates (.refl changes), ?_, ?_, ?_, ?_⟩
    · exact fun change h => decision_applyAll_of_mem hreplaces {} hdistinct h
    · exact fun field h => decision_applyAll_of_not_mem hreplaces {} h
    · exact fun order hperm => applyAll_perm hreplaces {} hdistinct hperm
    · exact fun other layout same hother hsame hperm => hmeans hother hsame hperm
  · rintro members field rfl htwice
    have hnone : ofJson? (.object members) = none := by
      rw [Option.eq_none_iff_forall_ne_some]
      intro s hs
      obtain ⟨changes, hstates, hdistinct, -⟩ := ofJson?_eq_some_iff.mp hs
      have honce := List.nodup_iff_count_le_one.mp hdistinct field
      rw [← StatedBy.count hstates field] at honce
      omega
    rw [ofFile_of_document hdocument, hnone, Option.elim_none]

/-- An object with an unknown member and blanks around it, the array of the same two values, and a field that is named
twice. -/
theorem ofFile_of_layout_three_texts :
    ofFile "relay.json"
        (some " \x7b\"max_connections\":7,\"x\":[null,\x7b\x7d],\"listen_addr\":\"a\"\x7d\n".toUTF8.toList) =
      .ok { listenAddress := "a", maxConnections := 7 } ∧
    ofFile "relay.json" (some "[\"a\",7]".toUTF8.toList) =
      .ok { listenAddress := "a", maxConnections := 7 } ∧
    ofFile "relay.json" (some "\x7b\"backends\":[],\"backends\":7\x7d".toUTF8.toList) =
      .error (.settings (.malformed "relay.json")) := by
  let key (field : Field) : List Piece := field.name.toList.map Piece.char
  have hcount : (Change.maxConnections 7).WrittenAs (.ofNat 7) :=
    Json.word?_eq_some_iff.mp (Json.word?_ofNat 7)
  have haddress : (Change.listenAddress "a").WrittenAs (.ofText "a") :=
    Json.text?_eq_some_iff.mp (Json.text?_ofText "a")
  have hmixed : Json.Document
      (.object [(key .maxConnections, .ofNat 7), ([.char 'x'], .array [.null, .object []]),
        (key .listenAddress, .ofText "a")])
      " \x7b\"max_connections\":7,\"x\":[null,\x7b\x7d],\"listen_addr\":\"a\"\x7d\n".toList := by
    have hskipped : Json.Spells (.array [.null, .object []]) (Json.array [.null, .object []]).compact := by
      apply Json.array_spells
      simp only [List.forall_mem_cons]
      exact ⟨.null, .noMembers Json.blanks_nil, nofun⟩
    have hbefore : Json.Blanks [' '] := List.forall_mem_singleton.mpr rfl
    have hafter : Json.Blanks ['\n'] := List.forall_mem_singleton.mpr rfl
    refine .mk hbefore (Json.object_spells ?_) hafter
    simp only [List.forall_mem_cons]
    exact ⟨Field.maxConnections.member_spells (Json.ofNat_spells 7),
      ⟨Piece.written_ofChars ['x'], hskipped⟩,
      Field.listenAddress.member_spells (Json.ofText_spells "a"), nofun⟩
  have hrow : Json.Document (.array [.ofText "a", .ofNat 7]) "[\"a\",7]".toList := by
    refine .mk Json.blanks_nil (Json.array_spells ?_) Json.blanks_nil
    simp only [List.forall_mem_cons]
    exact ⟨Json.ofText_spells "a", Json.ofNat_spells 7, nofun⟩
  have htwice : Json.Document (.object [(key .backends, .array []), (key .backends, .ofNat 7)])
      "\x7b\"backends\":[],\"backends\":7\x7d".toList := by
    refine .mk Json.blanks_nil (Json.object_spells ?_) Json.blanks_nil
    simp only [List.forall_mem_cons]
    exact ⟨Field.backends.member_spells (.noItems Json.blanks_nil),
      Field.backends.member_spells (Json.ofNat_spells 7), nofun⟩
  have hname : Piece.text? [.char 'x'] = some ['x'] := rfl
  have hstates : States
      (.object [(key .maxConnections, .ofNat 7), ([.char 'x'], .array [.null, .object []]),
        (key .listenAddress, .ofText "a")])
      [.maxConnections 7, .listenAddress "a"] :=
    .decides (Field.text?_name .maxConnections) hcount
      (.skipped hname (by intro field; cases field <;> decide)
        (.decides (Field.text?_name .listenAddress) haddress .nil))
  have hitems : States (.array [.ofText "a", .ofNat 7]) [.listenAddress "a", .maxConnections 7] :=
    ⟨.cons haddress (.cons hcount .nil), by decide⟩
  obtain ⟨s, hfile, -, -, horder, hother⟩ :=
    (ofFile_of_layout hmixed "relay.json").1 [.maxConnections 7, .listenAddress "a"] hstates (by decide)
  obtain rfl := horder _ (.refl _)
  have harray := hother "[\"a\",7]" (.array [.ofText "a", .ofNat 7]) _ hrow hitems (.swap ..)
  exact ⟨hfile, harray,
    (ofFile_of_layout htwice "relay.json").2 _ .backends rfl (by decide)⟩

end Settings

end ShardedCache
