import ShardedCache.Settings.Document

namespace ShardedCache.Settings

namespace Change

def field : Change → Field
  | .listenAddress _ => .listenAddress
  | .maxConnections _ => .maxConnections
  | .readTimeout _ => .readTimeout
  | .writeTimeout _ => .writeTimeout
  | .maxBodyLength _ => .maxBodyLength
  | .backend _ => .backends
  | .backends _ => .backends
  | .backendTimeout _ => .backendTimeout
  | .sweepInterval _ => .sweepInterval
  | .idleLifetime _ => .idleLifetime

/-- Whether the change says all about its field, and not only what to add. -/
def replaces : Change → Bool
  | .backend _ => false
  | _ => true

end Change

/-- What the settings decide about a field. -/
def decision (s : Settings) : Field → Change
  | .listenAddress => .listenAddress s.listenAddress
  | .maxConnections => .maxConnections s.maxConnections
  | .readTimeout => .readTimeout s.readTimeout
  | .writeTimeout => .writeTimeout s.writeTimeout
  | .maxBodyLength => .maxBodyLength s.maxBodyLength
  | .backends => .backends s.backends
  | .backendTimeout => .backendTimeout s.backendTimeout
  | .sweepInterval => .sweepInterval s.sweepInterval
  | .idleLifetime => .idleLifetime s.idleLifetime

theorem ext_decision {s t : Settings} (h : ∀ field, s.decision field = t.decision field) : s = t := by
  have hlisten := Change.listenAddress.inj (h .listenAddress)
  have hcount := Change.maxConnections.inj (h .maxConnections)
  have hread := Change.readTimeout.inj (h .readTimeout)
  have hwrite := Change.writeTimeout.inj (h .writeTimeout)
  have hbody := Change.maxBodyLength.inj (h .maxBodyLength)
  have hbackends := Change.backends.inj (h .backends)
  have hbackend := Change.backendTimeout.inj (h .backendTimeout)
  have hsweep := Change.sweepInterval.inj (h .sweepInterval)
  have hidle := Change.idleLifetime.inj (h .idleLifetime)
  cases s
  cases t
  simp_all

theorem decision_apply (s : Settings) {change : Change} (h : change.replaces = true) (field : Field) :
    (s.apply change).decision field = if change.field = field then change else s.decision field := by
  cases change <;> simp [Change.replaces] at h <;> cases field <;> rfl

namespace Field

theorem ofName?_eq_some_iff {name : String} {field : Field} :
    ofName? name = some field ↔ name = field.name := by
  rw [ofName?]
  constructor
  · intro h
    simpa [eq_comm] using List.find?_some h
  · rintro rfl
    cases field <;> decide

theorem field_of_change? {value : Json} {field : Field} {change : Change}
    (h : field.change? value = some change) : change.field = field ∧ change.replaces = true := by
  cases field <;> simp only [change?, Option.map_eq_some_iff] at h <;> obtain ⟨_, -, rfl⟩ := h <;>
    exact ⟨rfl, rfl⟩

end Field

/-- The settings decide a field as the value does if there is one, and else as before. -/
def Follows (before after : Settings) (field : Field) (value? : Option Json) : Prop :=
  match value? with
  | some value => field.change? value = some (after.decision field)
  | none => after.decision field = before.decision field

theorem Follows.congr {before s t : Settings} {field : Field} {value? : Option Json}
    (h : Follows before s field value?) (hdecision : s.decision field = t.decision field) :
    Follows before t field value? := by
  cases value? with
  | none => exact hdecision.symm.trans h
  | some value => exact h.trans (congrArg some hdecision)

section Changes

variable {changes : List Change} (hreplaces : ∀ change ∈ changes, change.replaces = true)

include hreplaces

theorem decision_applyAll_of_not_mem (s : Settings) {field : Field} (h : field ∉ changes.map Change.field) :
    (s.applyAll changes).decision field = s.decision field := by
  induction changes generalizing s with
  | nil => rfl
  | cons change changes ih =>
    obtain ⟨hfirst, hothers⟩ := List.forall_mem_cons.mp hreplaces
    rw [List.map_cons, List.mem_cons, not_or] at h
    calc (s.applyAll (change :: changes)).decision field
        = (s.apply change).decision field := ih hothers (s.apply change) h.2
      _ = s.decision field := by rw [decision_apply s hfirst, if_neg (Ne.symm h.1)]

theorem decision_applyAll_of_mem (s : Settings) (hdistinct : (changes.map Change.field).Nodup) {change : Change}
    (h : change ∈ changes) : (s.applyAll changes).decision change.field = change := by
  induction changes generalizing s with
  | nil => cases h
  | cons first changes ih =>
    obtain ⟨hfirst, hothers⟩ := List.forall_mem_cons.mp hreplaces
    obtain ⟨hnew, hrest⟩ := List.nodup_cons.mp hdistinct
    obtain rfl | hmem := List.mem_cons.mp h
    · calc (s.applyAll (change :: changes)).decision change.field
          = (s.apply change).decision change.field := decision_applyAll_of_not_mem hothers (s.apply change) hnew
        _ = change := by rw [decision_apply s hfirst, if_pos rfl]
    · exact ih hothers (s.apply first) hrest hmem

end Changes

theorem changes_of_known {known : List (Field × Json)} {changes : List Change}
    (h : known.mapM (fun (field, value) => field.change? value) = some changes) :
    changes.map Change.field = known.map (·.1) ∧ (∀ change ∈ changes, change.replaces = true) ∧
      ∀ field value, known.lookup field = some value → ∃ change ∈ changes, field.change? value = some change := by
  induction known generalizing changes with
  | nil =>
    obtain rfl := Option.some.inj h
    exact ⟨rfl, nofun, nofun⟩
  | cons entry known ih =>
    obtain ⟨own, value⟩ := entry
    simp only [List.mapM_cons, Option.bind_eq_bind, Option.bind_eq_some_iff, Option.pure_def,
      Option.some.injEq] at h
    obtain ⟨change, hchange, rest, hrest, rfl⟩ := h
    obtain ⟨hfield, hreplaces⟩ := Field.field_of_change? hchange
    obtain ⟨hfields, hothers, hdecided⟩ := ih hrest
    refine ⟨?_, List.forall_mem_cons.mpr ⟨hreplaces, hothers⟩, ?_⟩
    · rw [List.map_cons, List.map_cons, hfield, hfields]
    · intro field other hlookup
      by_cases hsame : field = own
      · subst hsame
        rw [List.lookup_cons_self, Option.some.injEq] at hlookup
        exact ⟨change, List.mem_cons_self, hlookup ▸ hchange⟩
      · have hne : (field == own) = false := by simpa using hsame
        rw [List.lookup_cons, hne] at hlookup
        obtain ⟨later, hlater, hdecides⟩ := hdecided field other hlookup
        exact ⟨later, List.mem_cons_of_mem change hlater, hdecides⟩

theorem follows_applyAll {known : List (Field × Json)} {changes : List Change} {s : Settings}
    (hchanges : known.mapM (fun (field, value) => field.change? value) = some changes)
    (hdistinct : (known.map (·.1)).Nodup) (field : Field) :
    Follows s (s.applyAll changes) field (known.lookup field) := by
  obtain ⟨hfields, hreplaces, hdecided⟩ := changes_of_known hchanges
  cases hlookup : known.lookup field with
  | some value =>
    obtain ⟨change, hmem, hchange⟩ := hdecided field value hlookup
    obtain ⟨rfl, -⟩ := Field.field_of_change? hchange
    have hdecision := decision_applyAll_of_mem hreplaces s (hfields ▸ hdistinct) hmem
    exact hchange.trans (congrArg some hdecision.symm)
  | none =>
    apply decision_applyAll_of_not_mem hreplaces
    rw [hfields, List.mem_map]
    rintro ⟨entry, hentry, rfl⟩
    have hne := List.lookup_eq_none_iff.mp hlookup entry hentry
    exact (bne_iff_ne.mp hne) rfl

def known (named : List (List Char × Json)) : List (Field × Json) :=
  named.filterMap fun (name, value) =>
    (Field.ofName? (String.ofList name)).map fun field => (field, value)

theorem changesOfMembers?_of_named {members : List (List Piece × Json)} {named : List (List Char × Json)}
    (h : members.mapM (fun (key, value) => (Piece.text? key).map fun name => (name, value)) = some named) :
    changesOfMembers? members =
      if ((known named).map (·.1)).Nodup then
        (known named).mapM fun (field, value) => field.change? value
      else none := by
  rw [changesOfMembers?, h]
  rfl

end ShardedCache.Settings
