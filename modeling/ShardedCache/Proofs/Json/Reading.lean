import ShardedCache.Proofs.Json.Grammar

namespace ShardedCache.Json

section Blanks

variable {blanks rest : List Char}

theorem skipBlank_append (h : Blanks blanks) : skipBlank (blanks ++ rest) = skipBlank rest := by
  rw [skipBlank, List.dropWhile_append_of_pos h]
  rfl

theorem skipBlank_of_blanks (h : Blanks blanks) : skipBlank blanks = [] := by
  have hskip : skipBlank (blanks ++ []) = skipBlank [] := skipBlank_append h
  rwa [List.append_nil] at hskip

theorem skipBlank_cons {c : Char} (h : isBlank c = false) : skipBlank (c :: rest) = c :: rest := by
  rw [skipBlank, List.dropWhile_cons, h]
  rfl

theorem skipBlank_skipBlank (cs : List Char) : skipBlank (skipBlank cs) = skipBlank cs := by
  induction cs with
  | nil => rfl
  | cons c cs ih =>
    by_cases h : isBlank c = true
    · have hskip : skipBlank (c :: cs) = skipBlank cs := by
        rw [skipBlank, List.dropWhile_cons_of_pos h]
        rfl
      rw [hskip, ih]
    · rw [skipBlank_cons (Bool.eq_false_iff.mpr h), skipBlank_cons (Bool.eq_false_iff.mpr h)]

end Blanks

def NoDigit (rest : List Char) : Prop :=
  ∀ c ∈ rest.head?, c.isDigit = false

/-- What follows does not go on with a number. -/
structure Ends (rest : List Char) : Prop where
  digit : NoDigit rest
  point : rest.head? ≠ some '.'
  exponent : ∀ c ∈ rest.head?, c ≠ 'e' ∧ c ≠ 'E'

theorem digits1_append {digits rest : List Char} (h : Digits digits) (hrest : NoDigit rest) :
    digits1 (digits ++ rest) = some (digits, rest) := by
  have htake : (digits ++ rest).takeWhile Char.isDigit = digits := by
    rw [List.takeWhile_append_of_pos h.digit]
    cases rest with
    | nil => simp
    | cons c more => simp [hrest c rfl]
  have hdrop : (digits ++ rest).dropWhile Char.isDigit = rest := by
    rw [List.dropWhile_append_of_pos h.digit]
    cases rest with
    | nil => rfl
    | cons c more => simp [hrest c rfl]
  rw [digits1, htake, hdrop]
  match digits, h.nonempty with
  | d :: ds, _ => rfl

theorem whole_append {text rest : List Char} (h : Whole text) (hrest : NoDigit rest) :
    whole (text ++ rest) = some (text, rest) := by
  cases h with
  | zero => rfl
  | @nonzero d more hd hdigits =>
    have hwhole : whole (d :: (more ++ rest)) = digits1 (d :: (more ++ rest)) := by
      rw [whole]
      intro _ heq
      exact hd (List.cons.inj heq).1
    rw [List.cons_append, hwhole, ← List.cons_append, digits1_append hdigits hrest]

theorem fraction_append {text rest : List Char} (h : Fraction text) (hrest : NoDigit rest)
    (hpoint : rest.head? ≠ some '.') : fraction (text ++ rest) = some (text, rest) := by
  cases h with
  | none =>
    rw [List.nil_append, fraction]
    rintro more rfl
    exact hpoint rfl
  | point hdigits => rw [List.cons_append, fraction, digits1_append hdigits hrest, Option.map_some]

theorem exponent_append {text rest : List Char} (h : Exponent text) (hrest : Ends rest) :
    exponent (text ++ rest) = some (text, rest) := by
  cases h with
  | none =>
    cases rest with
    | nil => rfl
    | cons c more =>
      have hc := hrest.exponent c rfl
      simp [exponent, hc.1, hc.2]
  | @plain e digits he hdigits =>
    match digits, hdigits with
    | d :: ds, hdigits =>
      have hd := hdigits.digit d List.mem_cons_self
      have hsign : d ≠ '+' ∧ d ≠ '-' := by
        constructor <;> rintro rfl <;> cases hd
      have hread := digits1_append hdigits hrest.digit
      rw [List.cons_append] at hread
      simp [exponent, he, hsign.1, hsign.2, hread]
  | signed he hsign hdigits =>
    simp [exponent, he, hsign, digits1_append hdigits hrest.digit]

theorem Exponent.front {text rest : List Char} (h : Exponent text) (hrest : Ends rest) :
    NoDigit (text ++ rest) ∧ (text ++ rest).head? ≠ some '.' := by
  have letter {e : Char} (he : e = 'e' ∨ e = 'E') (more : List Char) :
      NoDigit (e :: more) ∧ (e :: more).head? ≠ some '.' := by
    rcases he with rfl | rfl <;> exact ⟨by simp [NoDigit], by simp⟩
  cases h with
  | none => exact ⟨hrest.digit, hrest.point⟩
  | plain he _ => exact letter he _
  | signed he _ _ => exact letter he _

theorem Fraction.front {text rest : List Char} (h : Fraction text) (hrest : NoDigit rest) :
    NoDigit (text ++ rest) := by
  cases h with
  | none => exact hrest
  | point _ => simp [NoDigit]

theorem Whole.head {text : List Char} (h : Whole text) : ∃ d more, text = d :: more ∧ d.isDigit = true := by
  cases h with
  | zero => exact ⟨'0', [], rfl, rfl⟩
  | nonzero _ hdigits => exact ⟨_, _, rfl, hdigits.digit _ List.mem_cons_self⟩

theorem Literal.head {text : List Char} (h : Literal text) :
    ∃ c more, text = c :: more ∧ (c = '-' ∨ c.isDigit = true) := by
  cases h with
  | plain hwhole _ _ =>
    obtain ⟨d, more, rfl, hd⟩ := hwhole.head
    exact ⟨d, _, rfl, .inr hd⟩
  | negative _ _ _ => exact ⟨'-', _, rfl, .inl rfl⟩

theorem literal_append {text rest : List Char} (h : Literal text) (hrest : Ends rest) :
    literal (text ++ rest) = some (text, rest) := by
  have parts {whole fraction exponent : List Char} (hwhole : Whole whole) (hfraction : Fraction fraction)
      (hexponent : Exponent exponent) :
      Json.whole (whole ++ (fraction ++ (exponent ++ rest))) =
          some (whole, fraction ++ (exponent ++ rest)) ∧
        Json.fraction (fraction ++ (exponent ++ rest)) = some (fraction, exponent ++ rest) ∧
        Json.exponent (exponent ++ rest) = some (exponent, rest) := by
    obtain ⟨hdigit, hpoint⟩ := hexponent.front hrest
    exact ⟨whole_append hwhole (hfraction.front hdigit), fraction_append hfraction hdigit hpoint,
      exponent_append hexponent hrest⟩
  cases h with
  | plain hwhole hfraction hexponent =>
    obtain ⟨h1, h2, h3⟩ := parts hwhole hfraction hexponent
    obtain ⟨d, more, rfl, hd⟩ := hwhole.head
    have hsign : d ≠ '-' := by
      rintro rfl
      cases hd
    simp only [List.append_assoc, List.cons_append] at h1 ⊢
    simp [literal, hsign, h1, h2, h3]
  | negative hwhole hfraction hexponent =>
    obtain ⟨h1, h2, h3⟩ := parts hwhole hfraction hexponent
    simp [literal, h1, h2, h3]

theorem pieces_append {all : List Piece} {text rest : List Char} (h : SpellsPieces all text) :
    pieces (text ++ '"' :: rest) = some (all, rest) := by
  induction h with
  | nil => rfl
  | @cons piece more text others h _ ih =>
    rw [List.append_assoc]
    cases h with
    | @plain c hcontrol hquote hback =>
      rw [List.cons_append, List.nil_append, pieces]
      · simp [hback, Nat.not_lt.mpr hcontrol, ih]
      · exact hquote
      · rintro _ _ _ _ _ rfl
        exact absurd rfl hback
      · rintro _ _ rfl
        exact absurd rfl hback
    | @escaped letter c hletter =>
      have hfound : Piece.escapes.lookup letter = some c ∧ letter ≠ 'u' := by
        revert hletter
        simp only [Piece.escapes, List.mem_cons, Prod.mk.injEq, List.not_mem_nil, or_false]
        rintro (⟨rfl, rfl⟩ | ⟨rfl, rfl⟩ | ⟨rfl, rfl⟩ | ⟨rfl, rfl⟩ | ⟨rfl, rfl⟩ | ⟨rfl, rfl⟩ | ⟨rfl, rfl⟩ |
          ⟨rfl, rfl⟩) <;> decide
      rw [List.cons_append, List.cons_append, List.nil_append, pieces]
      · simp [hfound.1, ih]
      · intro _ _ _ _ _ hu
        exact absurd hu hfound.2
    | unit hunit =>
      simp [pieces, hunit, ih]

theorem isBlank_eq_false {c : Char} (h : c = '-' ∨ c.isDigit = true) : isBlank c = false := by
  simp only [isBlank, Bool.or_eq_false_iff, decide_eq_false_iff_not]
  refine ⟨⟨⟨?_, ?_⟩, ?_⟩, ?_⟩ <;> rintro rfl <;> simp at h

theorem Spells.head {json : Json} {text : List Char} (h : Spells json text) :
    ∃ c more, text = c :: more ∧ isBlank c = false ∧ c ≠ ']' := by
  cases h with
  | null => exact ⟨_, _, rfl, rfl, by decide⟩
  | yes => exact ⟨_, _, rfl, rfl, by decide⟩
  | no => exact ⟨_, _, rfl, rfl, by decide⟩
  | string => exact ⟨_, _, rfl, rfl, by decide⟩
  | noItems => exact ⟨_, _, rfl, rfl, by decide⟩
  | array => exact ⟨_, _, rfl, rfl, by decide⟩
  | noMembers => exact ⟨_, _, rfl, rfl, by decide⟩
  | object => exact ⟨_, _, rfl, rfl, by decide⟩
  | number hliteral =>
    obtain ⟨c, more, rfl, hc⟩ := hliteral.head
    refine ⟨c, more, rfl, ?_, ?_⟩
    · exact isBlank_eq_false hc
    · rintro rfl
      rcases hc with hc | hc <;> cases hc

theorem Spells.head_append {json : Json} {before text : List Char} (hbefore : Blanks before)
    (h : Spells json text) (rest : List Char) :
    ∃ c more, skipBlank (before ++ (text ++ rest)) = c :: more ∧ c ≠ ']' := by
  obtain ⟨c, more, rfl, hc, hne⟩ := h.head
  rw [skipBlank_append hbefore, List.cons_append, skipBlank_cons hc]
  exact ⟨c, _, rfl, hne⟩

theorem SpellsItems.head {items : List Json} {text : List Char} (h : SpellsItems items text)
    (rest : List Char) : ∃ c more, skipBlank (text ++ rest) = c :: more ∧ c ≠ ']' := by
  cases h with
  | one hbefore h _ =>
    simp only [List.append_assoc]
    exact h.head_append hbefore _
  | more hbefore h _ _ =>
    simp only [List.append_assoc]
    exact h.head_append hbefore _

theorem SpellsMember.head {member : List Piece × Json} {text : List Char} (h : SpellsMember member text)
    (rest : List Char) : ∃ more, skipBlank (text ++ rest) = '"' :: more := by
  obtain ⟨hbefore, hname, hcolon, hstart, h, hafter⟩ := h
  simp only [List.append_assoc, List.cons_append]
  rw [skipBlank_append hbefore, skipBlank_cons rfl]
  exact ⟨_, rfl⟩

theorem SpellsMembers.head {members : List (List Piece × Json)} {text : List Char}
    (h : SpellsMembers members text) (rest : List Char) :
    ∃ more, skipBlank (text ++ rest) = '"' :: more := by
  cases h with
  | one h => exact h.head rest
  | more h _ =>
    rw [List.append_assoc]
    exact h.head _

theorem value_skipBlank (fuel : Nat) (cs : List Char) : value fuel (skipBlank cs) = value fuel cs := by
  cases fuel with
  | zero => rfl
  | succ fuel => rw [value, value, skipBlank_skipBlank]

theorem items_skipBlank (fuel : Nat) (cs : List Char) : items fuel (skipBlank cs) = items fuel cs := by
  cases fuel with
  | zero => rfl
  | succ fuel => rw [items, items, value_skipBlank]

theorem members_skipBlank (fuel : Nat) (cs : List Char) :
    members fuel (skipBlank cs) = members fuel cs := by
  cases fuel with
  | zero => rfl
  | succ fuel => rw [members, members, skipBlank_skipBlank]

/-- With this much fuel everything is read that the grammar writes in fewer characters. -/
structure Reads (fuel : Nat) : Prop where
  value : ∀ {json before text rest}, Blanks before → Spells json text → Ends rest →
    text.length < fuel → Json.value fuel (before ++ (text ++ rest)) = some (json, rest)
  items : ∀ {all text rest}, SpellsItems all text → text.length + 1 < fuel →
    Json.items fuel (text ++ ']' :: rest) = some (all, rest)
  members : ∀ {all text rest}, SpellsMembers all text → text.length + 1 < fuel →
    Json.members fuel (text ++ '\x7d' :: rest) = some (all, rest)

theorem ends_cons {c : Char} {rest : List Char} (h : c = ',' ∨ c = ']' ∨ c = '\x7d' ∨ isBlank c = true) :
    Ends (c :: rest) := by
  have hc : c.isDigit = false ∧ c ≠ '.' ∧ c ≠ 'e' ∧ c ≠ 'E' := by
    rcases h with rfl | rfl | rfl | h
    · decide
    · decide
    · decide
    · simp only [isBlank, Bool.or_eq_true, decide_eq_true_eq] at h
      rcases h with ((rfl | rfl) | rfl) | rfl <;> decide
  exact ⟨by simp [NoDigit, hc], by simp [hc], by simp [hc]⟩

theorem ends_nil : Ends [] :=
  ⟨by simp [NoDigit], by simp, by simp⟩

theorem ends_append {blanks rest : List Char} (h : Blanks blanks) (hrest : Ends rest) :
    Ends (blanks ++ rest) := by
  cases blanks with
  | nil => exact hrest
  | cons c more => exact ends_cons (.inr (.inr (.inr (h c List.mem_cons_self))))

theorem value_step {fuel : Nat} (ih : Reads fuel) {json : Json} {before text rest : List Char}
    (hbefore : Blanks before) (h : Spells json text) (hrest : Ends rest) (hfuel : text.length < fuel + 1) :
    value (fuel + 1) (before ++ (text ++ rest)) = some (json, rest) := by
  rw [value, skipBlank_append hbefore]
  cases h with
  | null => rfl
  | yes => rfl
  | no => rfl
  | string hpieces =>
    simp only [List.cons_append, List.append_assoc, List.nil_append]
    rw [skipBlank_cons rfl]
    simp [pieces_append hpieces]
  | noItems hblanks =>
    simp only [List.cons_append, List.append_assoc, List.nil_append]
    have hclosing : skipBlank (']' :: rest) = ']' :: rest := skipBlank_cons rfl
    rw [skipBlank_cons rfl]
    simp only [skipBlank_append hblanks, hclosing]
  | noMembers hblanks =>
    simp only [List.cons_append, List.append_assoc, List.nil_append]
    have hclosing : skipBlank ('\x7d' :: rest) = '\x7d' :: rest := skipBlank_cons rfl
    rw [skipBlank_cons rfl]
    simp only [skipBlank_append hblanks, hclosing]
  | @array all text hitems =>
    have hlength : text.length + 1 < fuel := by
      simp only [List.length_append, List.length_cons, List.length_nil] at hfuel
      omega
    have hread : items fuel (text ++ ']' :: rest) = some (all, rest) := ih.items hitems hlength
    obtain ⟨c, more, hskip, hne⟩ := hitems.head (']' :: rest)
    rw [← items_skipBlank, hskip] at hread
    simp only [List.cons_append, List.append_assoc, List.nil_append]
    rw [skipBlank_cons rfl]
    simp only [hskip]
    split
    · rename_i heq
      exact absurd (List.cons.inj heq).1 hne
    · rw [hread, Option.map_some]
  | @object all text hmembers =>
    have hlength : text.length + 1 < fuel := by
      simp only [List.length_append, List.length_cons, List.length_nil] at hfuel
      omega
    have hread : members fuel (text ++ '\x7d' :: rest) = some (all, rest) := ih.members hmembers hlength
    obtain ⟨more, hskip⟩ := hmembers.head ('\x7d' :: rest)
    rw [← members_skipBlank, hskip] at hread
    simp only [List.cons_append, List.append_assoc, List.nil_append]
    rw [skipBlank_cons rfl]
    simp only [hskip]
    split
    · rename_i heq
      cases heq
    · rw [hread, Option.map_some]
  | number hliteral =>
    have hread := literal_append hliteral hrest
    obtain ⟨c, more, rfl, hc⟩ := hliteral.head
    rw [List.cons_append] at hread ⊢
    rw [skipBlank_cons (isBlank_eq_false hc)]
    split
    case h_7 => rw [hread, Option.map_some]
    all_goals
      rename_i heq
      obtain ⟨rfl, -⟩ := List.cons.inj heq
      simp at hc

theorem items_step {fuel : Nat} (ih : Reads fuel) {all : List Json} {text rest : List Char}
    (h : SpellsItems all text) (hfuel : text.length + 1 < fuel + 1) :
    items (fuel + 1) (text ++ ']' :: rest) = some (all, rest) := by
  cases h with
  | @one item before text after hbefore h hafter =>
    have hlength : text.length < fuel := by
      simp only [List.length_append] at hfuel
      omega
    have hends : Ends (after ++ ']' :: rest) := ends_append hafter (ends_cons (.inr (.inl rfl)))
    have hread := ih.value hbefore h hends hlength
    have hclosing : skipBlank (']' :: rest) = ']' :: rest := skipBlank_cons rfl
    simp only [List.append_assoc] at hread ⊢
    simp [items, hread, skipBlank_append hafter, hclosing]
  | @more item all before text after others hbefore h hafter hothers =>
    have hlengths : text.length < fuel ∧ others.length + 1 < fuel := by
      obtain ⟨c, more, rfl, -, -⟩ := h.head
      simp only [List.length_append, List.length_cons] at hfuel ⊢
      omega
    have hends : Ends (after ++ ',' :: (others ++ ']' :: rest)) :=
      ends_append hafter (ends_cons (.inl rfl))
    have hread := ih.value hbefore h hends hlengths.1
    have hrest : items fuel (others ++ ']' :: rest) = some (all, rest) := ih.items hothers hlengths.2
    have hcomma : skipBlank (',' :: (others ++ ']' :: rest)) = ',' :: (others ++ ']' :: rest) :=
      skipBlank_cons rfl
    simp only [List.append_assoc, List.cons_append] at hread ⊢
    simp [items, hread, skipBlank_append hafter, hcomma, hrest]

theorem member_step {fuel : Nat} (ih : Reads fuel) {key : List Piece} {item : Json}
    {text rest : List Char} (h : SpellsMember (key, item) text) (hfuel : text.length < fuel)
    (hrest : Ends rest) :
    ∃ name colon start, skipBlank (text ++ rest) = '"' :: name ∧ pieces name = some (key, colon) ∧
      skipBlank colon = ':' :: start ∧
      ∃ after, value fuel start = some (item, after) ∧ skipBlank after = skipBlank rest := by
  cases h with
  | @mk _ _ before name colon start text after hbefore hname hcolon hstart h hafter =>
    have hlength : text.length < fuel := by
      simp only [List.length_append, List.length_cons] at hfuel
      omega
    have hread := ih.value hstart h (ends_append hafter hrest) hlength
    refine ⟨name ++ '"' :: (colon ++ ':' :: (start ++ (text ++ (after ++ rest)))),
      colon ++ ':' :: (start ++ (text ++ (after ++ rest))), start ++ (text ++ (after ++ rest)),
      ?_, pieces_append hname, ?_, after ++ rest, hread, skipBlank_append hafter⟩
    · simp only [List.append_assoc, List.cons_append]
      rw [skipBlank_append hbefore, skipBlank_cons rfl]
    · rw [skipBlank_append hcolon, skipBlank_cons rfl]

theorem members_step {fuel : Nat} (ih : Reads fuel) {all : List (List Piece × Json)}
    {text rest : List Char} (h : SpellsMembers all text) (hfuel : text.length + 1 < fuel + 1) :
    members (fuel + 1) (text ++ '\x7d' :: rest) = some (all, rest) := by
  cases h with
  | @one member text h =>
    have hends : Ends ('\x7d' :: rest) := ends_cons (.inr (.inr (.inl rfl)))
    obtain ⟨name, colon, start, hskip, hname, hcolon, after, hread, hafter⟩ :=
      member_step ih h (by omega) hends
    have hclosing : skipBlank ('\x7d' :: rest) = '\x7d' :: rest := skipBlank_cons rfl
    simp [members, hskip, hname, hcolon, hread, hafter, hclosing]
  | @more member all text others h hothers =>
    have hlengths : text.length < fuel ∧ others.length + 1 < fuel := by
      have hpos : 0 < text.length := by
        cases h
        simp only [List.length_append, List.length_cons]
        omega
      simp only [List.length_append, List.length_cons] at hfuel
      omega
    have hends : Ends (',' :: (others ++ '\x7d' :: rest)) := ends_cons (.inl rfl)
    obtain ⟨name, colon, start, hskip, hname, hcolon, after, hread, hafter⟩ :=
      member_step ih h hlengths.1 hends
    have hrest : members fuel (others ++ '\x7d' :: rest) = some (all, rest) :=
      ih.members hothers hlengths.2
    have hcomma : skipBlank (',' :: (others ++ '\x7d' :: rest)) = ',' :: (others ++ '\x7d' :: rest) :=
      skipBlank_cons rfl
    rw [List.append_assoc, List.cons_append]
    simp [members, hskip, hname, hcolon, hread, hafter, hcomma, hrest]

/-- By induction on the fuel: every construct is read with the fuel that is left of its parts. -/
theorem reads (fuel : Nat) : Reads fuel := by
  induction fuel with
  | zero => exact ⟨fun _ _ _ h => absurd h (Nat.not_lt_zero _), fun _ h => absurd h (Nat.not_lt_zero _),
      fun _ h => absurd h (Nat.not_lt_zero _)⟩
  | succ fuel ih => exact ⟨value_step ih, items_step ih, members_step ih⟩

/-- A text that writes a value is read as that value. -/
theorem read?_of_document {json : Json} {text : List Char} (h : Document json text) :
    read? text = some json := by
  obtain ⟨hbefore, h, hafter⟩ := h
  rename_i before text after
  have hlength : text.length < (before ++ text ++ after).length + 1 := by
    simp only [List.length_append]
    omega
  have hends : Ends after := by
    have hnil := ends_append hafter ends_nil
    rwa [List.append_nil] at hnil
  have hread := (reads _).value hbefore h hends hlength
  rw [← List.append_assoc] at hread
  simp only [read?, hread, skipBlank_of_blanks hafter, if_true]

end ShardedCache.Json
