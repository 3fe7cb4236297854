import ShardedCache.Proofs.Json.Grammar

namespace ShardedCache

namespace Piece

open Json

theorem hexValue?_hexDigit {n : Nat} (h : n < 16) : hexValue? (Octets.hexDigit n) = some n := by
  revert n
  decide

theorem unit?_hexDigit (u : UInt16) :
    unit? (Octets.hexDigit (u.toNat / 4096)) (Octets.hexDigit (u.toNat / 256 % 16))
      (Octets.hexDigit (u.toNat / 16 % 16)) (Octets.hexDigit (u.toNat % 16)) = some u := by
  have hu := u.toNat_lt
  have hsum : u.toNat / 4096 * 4096 + u.toNat / 256 % 16 * 256 + u.toNat / 16 % 16 * 16 +
      u.toNat % 16 = u.toNat := by omega
  rw [unit?, hexValue?_hexDigit (by omega), hexValue?_hexDigit (by omega), hexValue?_hexDigit (by omega),
    hexValue?_hexDigit (by omega)]
  simp only [Option.bind_eq_bind, Option.bind_some, hsum, UInt16.ofNat_toNat]
  rfl

/-- Control characters without a letter of their own are written by their number. -/
theorem ofChar_cases (c : Char) :
    (ofChar c = .unit (UInt16.ofNat c.toNat) ∧ c.toNat < 0x20) ∨
      (ofChar c = .char c ∧ (c.toNat < 0x20 → c ∈ escapes.map (·.2))) := by
  rw [ofChar]
  split
  · rename_i h
    simp only [Bool.and_eq_true, decide_eq_true_eq] at h
    exact .inl ⟨rfl, h.1⟩
  · rename_i h
    refine .inr ⟨rfl, ?_⟩
    intro hcontrol
    simpa [hcontrol] using h

theorem written_ofChar (c : Char) : SpellsPiece (ofChar c) (ofChar c).written := by
  rcases ofChar_cases c with ⟨hunit, hcontrol⟩ | ⟨hchar, hcontrol⟩
  · rw [hunit, written]
    exact .unit (unit?_hexDigit _)
  · rw [hchar, written]
    split
    · rename_i hslash
      subst hslash
      exact .plain (by decide) (by decide) (by decide)
    · split
      · rename_i letter d hfind
        have hd : d = c := by simpa using List.find?_some hfind
        subst hd
        exact .escaped (List.mem_of_find?_eq_some hfind)
      · rename_i hnone
        have hother : c ∉ escapes.map (·.2) := by
          intro hmem
          obtain ⟨entry, hentry, hc⟩ := List.mem_map.mp hmem
          have hne := List.find?_eq_none.mp hnone entry hentry
          exact hne (by simpa using hc)
        refine .plain ?_ ?_ ?_
        · exact Nat.not_lt.mp fun hlow => hother (hcontrol hlow)
        · rintro rfl
          exact hother (by decide)
        · rintro rfl
          exact hother (by decide)

theorem written_ofChars (cs : List Char) :
    SpellsPieces (cs.map ofChar) ((cs.map ofChar).flatMap written) := by
  induction cs with
  | nil => exact .nil
  | cons c cs ih =>
    rw [List.map_cons, List.flatMap_cons]
    exact .cons (written_ofChar c) ih

theorem not_surrogate {u : UInt16} (h : u.toNat < 0x20) :
    isLowSurrogate u = false ∧ isHighSurrogate u = false := by
  simp only [isLowSurrogate, isHighSurrogate, Bool.and_eq_false_iff, decide_eq_false_iff_not,
    UInt16.le_iff_toNat_le]
  exact ⟨.inl (by simp; omega), .inl (by simp; omega)⟩

theorem text?_ofChars (cs : List Char) : text? (cs.map ofChar) = some cs := by
  induction cs with
  | nil => rfl
  | cons c cs ih =>
    rw [List.map_cons]
    rcases ofChar_cases c with ⟨hunit, hcontrol⟩ | ⟨hchar, -⟩
    · have hnat : (UInt16.ofNat c.toNat).toNat = c.toNat := by
        rw [UInt16.toNat_ofNat']
        omega
      obtain ⟨hlow, hhigh⟩ := not_surrogate (hnat.symm ▸ hcontrol)
      rw [hunit, text?.eq_def]
      simp [hlow, hhigh, ih, hnat]
    · rw [hchar, text?, ih, Option.map_some]

end Piece

namespace Json

theorem text?_ofText (text : String) : (ofText text).text? = some text := by
  rw [ofText, text?, Piece.text?_ofChars, Option.map_some, String.ofList_toList]

theorem texts?_ofTexts (texts : List String) : (array (texts.map ofText)).texts? = some texts := by
  rw [texts?, List.mapM_map]
  induction texts with
  | nil => rfl
  | cons text texts ih => simp [ih, text?_ofText]

theorem word?_ofNat (n : UInt64) : (ofNat n.toNat).word? = some n := by
  have hdigits : (Nat.toDigits 10 n.toNat).all Char.isDigit = true := by
    rw [List.all_eq_true]
    intro c hc
    exact Nat.isDigit_of_mem_toDigits (by decide) (by decide) hc
  have hvalue : (Nat.toDigits 10 n.toNat).foldl
      (fun value c => value * 10 + (c.toNat - '0'.toNat)) 0 = n.toNat := by
    have h := Nat.ofDigitChars_ten_toDigits (n := n.toNat)
    rw [Nat.ofDigitChars_eq_foldl] at h
    simpa only [Nat.mul_comm] using h
  have hlt : n.toNat < UInt64.size := n.toNat_lt
  simp only [ofNat, word?, hdigits, hvalue, if_true, if_pos hlt, UInt64.ofNat_toNat]

theorem digits_toDigits (n : Nat) : Digits (Nat.toDigits 10 n) :=
  ⟨Nat.toDigits_ne_nil, fun _ h => Nat.isDigit_of_mem_toDigits (by decide) (by decide) h⟩

theorem head_toDigits {n : Nat} (h : n ≠ 0) : (Nat.toDigits 10 n).head? ≠ some '0' := by
  induction n using Nat.strongRecOn with
  | ind n ih =>
    rw [Nat.toDigits_eq_if (by decide)]
    split
    · rename_i hlt
      have hdigit : ∀ k, k < 10 → k ≠ 0 → k.digitChar ≠ '0' := by decide
      intro hzero
      exact hdigit n hlt h (Option.some.inj hzero)
    · rename_i hle
      have hfront := ih (n / 10) (by omega) (by omega)
      rw [List.head?_append]
      cases hhead : (Nat.toDigits 10 (n / 10)).head? with
      | none => exact absurd (List.head?_eq_none_iff.mp hhead) Nat.toDigits_ne_nil
      | some d =>
        rw [hhead] at hfront
        exact hfront

theorem whole_toDigits (n : Nat) : Whole (Nat.toDigits 10 n) := by
  by_cases h : n = 0
  · subst h
    exact .zero
  · have hdigits := digits_toDigits n
    have hhead := head_toDigits h
    match hn : Nat.toDigits 10 n with
    | [] => exact absurd hn Nat.toDigits_ne_nil
    | d :: more =>
      rw [hn] at hdigits hhead
      exact .nonzero (fun hd => hhead (by rw [hd]; rfl)) hdigits

theorem ofNat_spells (n : Nat) : Spells (ofNat n) (ofNat n).compact := by
  have hliteral := Literal.plain (whole_toDigits n) .none .none
  rw [List.append_nil, List.append_nil] at hliteral
  rw [ofNat, compact]
  exact .number hliteral

theorem ofText_spells (text : String) : Spells (ofText text) (ofText text).compact := by
  rw [ofText, compact, quoted]
  exact .string (Piece.written_ofChars text.toList)

theorem compactItems_spells {item : Json} {others : List Json}
    (h : ∀ each ∈ item :: others, Spells each each.compact) :
    SpellsItems (item :: others) (compactItems (item :: others)) := by
  induction others generalizing item with
  | nil =>
    have hone := SpellsItems.one blanks_nil (h item List.mem_cons_self) blanks_nil
    rw [List.nil_append, List.append_nil] at hone
    rwa [compactItems]
  | cons next others ih =>
    have hothers := ih fun each heach => h each (List.mem_cons_of_mem item heach)
    have hmore := SpellsItems.more blanks_nil (h item List.mem_cons_self) blanks_nil hothers
    rw [List.nil_append, List.append_nil] at hmore
    rw [compactItems]
    · exact hmore
    · exact List.cons_ne_nil next others

theorem array_spells {items : List Json} (h : ∀ item ∈ items, Spells item item.compact) :
    Spells (.array items) (Json.compact (.array items)) := by
  rw [compact]
  match items, h with
  | [], _ => exact .noItems blanks_nil
  | item :: others, h => exact .array (compactItems_spells h)

theorem member_spells {key : List Piece} {item : Json} (hkey : SpellsPieces key (key.flatMap Piece.written))
    (h : Spells item item.compact) :
    SpellsMember (key, item) (quoted key ++ ':' :: compact item) := by
  have hmember := SpellsMember.mk blanks_nil hkey blanks_nil blanks_nil h blanks_nil
  simpa [quoted] using hmember

theorem compactMembers_spells {member : List Piece × Json} {others : List (List Piece × Json)}
    (h : ∀ each ∈ member :: others,
      SpellsPieces each.1 (each.1.flatMap Piece.written) ∧ Spells each.2 each.2.compact) :
    SpellsMembers (member :: others) (compactMembers (member :: others)) := by
  induction others generalizing member with
  | nil =>
    obtain ⟨hkey, hitem⟩ := h member List.mem_cons_self
    exact .one (member_spells hkey hitem)
  | cons next others ih =>
    obtain ⟨hkey, hitem⟩ := h member List.mem_cons_self
    have hothers := ih fun each heach => h each (List.mem_cons_of_mem member heach)
    have hmore := SpellsMembers.more (member_spells hkey hitem) hothers
    rw [compactMembers]
    · simpa using hmore
    · exact List.cons_ne_nil next others

theorem object_spells {members : List (List Piece × Json)}
    (h : ∀ each ∈ members,
      SpellsPieces each.1 (each.1.flatMap Piece.written) ∧ Spells each.2 each.2.compact) :
    Spells (.object members) (Json.compact (.object members)) := by
  rw [compact]
  match members, h with
  | [], _ => exact .noMembers blanks_nil
  | member :: others, h => exact .object (compactMembers_spells h)

end Json

end ShardedCache
