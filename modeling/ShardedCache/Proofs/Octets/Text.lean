import ShardedCache.Octets.Text

namespace ShardedCache.Octets

theorem toList_loop (bs : ByteArray) (i : Nat) (front : List UInt8) :
    ByteArray.toList.loop bs i front = front.reverse ++ bs.data.toList.drop i := by
  fun_induction ByteArray.toList.loop bs i front with
  | case1 i front h ih =>
    have hlt : i < bs.data.toList.length := h
    have hget : bs.get! i = bs.data.toList[i] := getElem!_pos bs.data i h
    rw [ih, List.drop_eq_getElem_cons hlt, hget, List.reverse_cons, List.append_assoc,
      List.singleton_append]
  | case2 i front h =>
    have hle : bs.data.toList.length ≤ i := Nat.not_lt.mp h
    rw [List.drop_of_length_le hle, List.append_nil]

theorem toList_eq_data (bs : ByteArray) : bs.toList = bs.data.toList := by
  rw [ByteArray.toList, toList_loop]
  rfl

theorem toByteArray_toList (bs : ByteArray) : bs.toList.toByteArray = bs := by
  apply ByteArray.ext
  rw [List.data_toByteArray, toList_eq_data, Array.toArray_toList]

/-- A text is read back from its octets. -/
theorem fromUTF8?_toUTF8 (text : String) : String.fromUTF8? text.toUTF8.toList.toByteArray = some text := by
  have hvalid : text.toUTF8.IsValidUTF8 := text.isValidUTF8
  rw [toByteArray_toList, String.fromUTF8?, dif_pos hvalid]
  rfl

theorem toList_toUTF8 (text : String) : text.toUTF8.toList = text.toList.flatMap String.utf8EncodeChar := by
  have hencode : text.toByteArray = (text.toList.flatMap String.utf8EncodeChar).toByteArray := by
    rw [← List.utf8Encode, ← String.toByteArray_ofList, String.ofList_toList]
  rw [String.toUTF8_eq_toByteArray, hencode, toList_eq_data, List.data_toByteArray]

theorem isContinuation_iff {b : UInt8} : isContinuation b = true ↔ 0x80 ≤ b.toNat ∧ b.toNat ≤ 0xBF := by
  simp [isContinuation, UInt8.le_iff_toNat_le]

theorem mayFollow_iff {first b : UInt8} :
    mayFollow first b = true ↔
      (0x80 ≤ b.toNat ∧ b.toNat ≤ 0xBF) ∧
        (first.toNat = 0xE0 → 0xA0 ≤ b.toNat) ∧ (first.toNat = 0xF0 → 0x90 ≤ b.toNat) ∧
        (first.toNat = 0xED → b.toNat ≤ 0x9F) ∧ (first.toNat = 0xF4 → b.toNat ≤ 0x8F) := by
  have hlow (f n : Nat) : (if f = 0xE0 then 0xA0 else if f = 0xF0 then 0x90 else 0x80) ≤ n ↔
      0x80 ≤ n ∧ (f = 0xE0 → 0xA0 ≤ n) ∧ (f = 0xF0 → 0x90 ≤ n) := by
    split
    · omega
    · split <;> omega
  have hhigh (f n : Nat) : n ≤ (if f = 0xED then 0x9F else if f = 0xF4 then 0x8F else 0xBF) ↔
      n ≤ 0xBF ∧ (f = 0xED → n ≤ 0x9F) ∧ (f = 0xF4 → n ≤ 0x8F) := by
    split
    · omega
    · split <;> omega
  simp only [mayFollow, Bool.and_eq_true, decide_eq_true_eq, UInt8.le_iff_toNat_le, apply_ite UInt8.toNat,
    ← UInt8.toNat_inj, UInt8.reduceToNat, hlow, hhigh]
  omega

theorem followers?_eq_some_iff {first : UInt8} {needed : Nat} :
    followers? first = some needed ↔
      needed = 0 ∧ first.toNat < 0x80 ∨ needed = 1 ∧ 0xC2 ≤ first.toNat ∧ first.toNat ≤ 0xDF ∨
        needed = 2 ∧ 0xE0 ≤ first.toNat ∧ first.toNat ≤ 0xEF ∨
        needed = 3 ∧ 0xF0 ≤ first.toNat ∧ first.toNat ≤ 0xF4 := by
  simp only [followers?, UInt8.lt_iff_toNat_lt, UInt8.le_iff_toNat_le, Bool.and_eq_true, decide_eq_true_eq,
    UInt8.reduceToNat]
  repeat' split
  all_goals
    simp only [Option.some.injEq, reduceCtorEq, false_iff]
    omega

/-- The value of a character that begins with `first` and has these octets after it. -/
def codeOf (first : UInt8) (tail : Octets) : Nat :=
  tail.foldl (fun code b => code * 64 + b.toNat % 64)
    (if tail.length = 0 then first.toNat else first.toNat % (64 >>> tail.length))

theorem codeOf_nil (first : UInt8) : codeOf first [] = first.toNat :=
  rfl

theorem codeOf_one (first b : UInt8) : codeOf first [b] = first.toNat % 32 * 64 + b.toNat % 64 :=
  rfl

theorem codeOf_two (first b c : UInt8) :
    codeOf first [b, c] = (first.toNat % 16 * 64 + b.toNat % 64) * 64 + c.toNat % 64 := by
  simp [codeOf]

theorem codeOf_three (first b c d : UInt8) :
    codeOf first [b, c, d] =
      ((first.toNat % 8 * 64 + b.toNat % 64) * 64 + c.toNat % 64) * 64 + d.toNat % 64 := by
  simp [codeOf]

/-- A first octet with as many octets after it as it needs, all of which may stand there. -/
structure Writes (c : Char) (first : UInt8) (tail : Octets) : Prop where
  needed : followers? first = some tail.length
  second : ∀ b ∈ tail.head?, mayFollow first b = true
  others : ∀ b ∈ tail.tail, isContinuation b = true
  code : codeOf first tail = c.toNat

theorem Writes.character_eq {c : Char} {first : UInt8} {tail : Octets} (h : Writes c first tail)
    (rest : Octets) : character first (tail ++ rest) = (c, tail.length) := by
  have hfound : following first tail.length (tail ++ rest) = tail.length := by
    rw [following, List.take_left]
    cases tail with
    | nil => rfl
    | cons b more =>
      have hall : (more ++ []).takeWhile isContinuation = more ++ [].takeWhile isContinuation :=
        List.takeWhile_append_of_pos h.others
      rw [List.append_nil, List.takeWhile_nil, List.append_nil] at hall
      simp only [h.second b rfl, if_true, hall, List.length_cons, Nat.add_comm]
  have hcode := h.code
  rw [codeOf] at hcode
  simp only [character, h.needed, hfound, if_true, List.take_left, hcode, Char.ofNat_toNat]

theorem Writes.lossyChars_eq {c : Char} {first : UInt8} {tail : Octets} (h : Writes c first tail)
    (rest : Octets) : lossyChars (first :: tail ++ rest) = c :: lossyChars rest := by
  rw [List.cons_append, lossyChars, h.character_eq rest]
  simp only [List.drop_left]

theorem toNat_low (n : Nat) : (UInt8.ofNat (n % 64 + 128)).toNat = n % 64 + 128 := by
  rw [UInt8.toNat_ofNat']
  omega

theorem isContinuation_low (n : Nat) : isContinuation (.ofNat (n % 64 + 128)) = true := by
  rw [isContinuation_iff, toNat_low]
  omega

section Lengths

variable {c : Char}

theorem writes_one (h : c.toNat ≤ 0x7F) : Writes c (.ofNat c.toNat) [] := by
  have hlt : c.toNat < 256 := by omega
  have hfirst := UInt8.toNat_ofNat_of_lt' hlt
  refine ⟨?_, nofun, nofun, ?_⟩
  · rw [followers?_eq_some_iff, hfirst]
    exact .inl ⟨rfl, by omega⟩
  · rw [codeOf_nil, hfirst]

theorem writes_two (hlow : 0x7F < c.toNat) (h : c.toNat ≤ 0x7FF) :
    Writes c (.ofNat (c.toNat / 64 % 32 + 192)) [.ofNat (c.toNat % 64 + 128)] := by
  have hlt : c.toNat / 64 % 32 + 192 < 256 := by omega
  have hfirst := UInt8.toNat_ofNat_of_lt' hlt
  refine ⟨?_, ?_, nofun, ?_⟩
  · rw [followers?_eq_some_iff, hfirst]
    exact .inr (.inl ⟨rfl, by omega⟩)
  · rintro _ ⟨⟩
    rw [mayFollow_iff, hfirst, toNat_low]
    omega
  · rw [codeOf_one, hfirst, toNat_low]
    omega

theorem writes_three (hlow : 0x7FF < c.toNat) (h : c.toNat ≤ 0xFFFF) :
    Writes c (.ofNat (c.toNat / 4096 % 16 + 224))
      [.ofNat (c.toNat / 64 % 64 + 128), .ofNat (c.toNat % 64 + 128)] := by
  have hvalid : c.toNat < 0xD800 ∨ 0xDFFF < c.toNat ∧ c.toNat < 0x110000 := c.valid
  have hlt : c.toNat / 4096 % 16 + 224 < 256 := by omega
  have hfirst := UInt8.toNat_ofNat_of_lt' hlt
  refine ⟨?_, ?_, ?_, ?_⟩
  · rw [followers?_eq_some_iff, hfirst]
    exact .inr (.inr (.inl ⟨rfl, by omega⟩))
  · -- Neither too small for three octets nor a surrogate.
    rintro _ ⟨⟩
    rw [mayFollow_iff, hfirst, toNat_low]
    omega
  · rw [List.tail_cons, List.forall_mem_singleton]
    exact isContinuation_low c.toNat
  · rw [codeOf_two, hfirst, toNat_low, toNat_low]
    omega

theorem writes_four (hlow : 0xFFFF < c.toNat) :
    Writes c (.ofNat (c.toNat / 262144 % 8 + 240))
      [.ofNat (c.toNat / 4096 % 64 + 128), .ofNat (c.toNat / 64 % 64 + 128), .ofNat (c.toNat % 64 + 128)] := by
  have hvalid : c.toNat < 0xD800 ∨ 0xDFFF < c.toNat ∧ c.toNat < 0x110000 := c.valid
  have hlt : c.toNat / 262144 % 8 + 240 < 256 := by omega
  have hfirst := UInt8.toNat_ofNat_of_lt' hlt
  refine ⟨?_, ?_, ?_, ?_⟩
  · rw [followers?_eq_some_iff, hfirst]
    exact .inr (.inr (.inr ⟨rfl, by omega⟩))
  · -- Neither too small for four octets nor beyond the last character.
    rintro _ ⟨⟩
    rw [mayFollow_iff, hfirst, toNat_low]
    omega
  · rw [List.tail_cons, List.forall_mem_cons, List.forall_mem_singleton]
    exact ⟨isContinuation_low (c.toNat / 64), isContinuation_low c.toNat⟩
  · rw [codeOf_three, hfirst, toNat_low, toNat_low, toNat_low]
    omega

end Lengths

theorem exists_writes (c : Char) : ∃ first tail, String.utf8EncodeChar c = first :: tail ∧ Writes c first tail := by
  have hval : c.val.toNat = c.toNat := rfl
  simp only [String.utf8EncodeChar, hval]
  split
  · rename_i hone
    exact ⟨_, _, rfl, writes_one hone⟩
  split
  · rename_i hone htwo
    exact ⟨_, _, rfl, writes_two (by omega) htwo⟩
  split
  · rename_i hone htwo hthree
    exact ⟨_, _, rfl, writes_three (by omega) hthree⟩
  · rename_i hone htwo hthree
    exact ⟨_, _, rfl, writes_four (by omega)⟩

/-- A text is shown as it is, octets or not. -/
theorem lossyText_toUTF8 (text : String) : lossyText text.toUTF8.toList = text := by
  have hchars : ∀ cs : List Char, lossyChars (cs.flatMap String.utf8EncodeChar) = cs := by
    intro cs
    induction cs with
    | nil => simp [lossyChars]
    | cons c cs ih =>
      obtain ⟨first, tail, hencode, hwrites⟩ := exists_writes c
      rw [List.flatMap_cons, hencode, hwrites.lossyChars_eq, ih]
  rw [lossyText, toList_toUTF8, hchars, String.ofList_toList]

end ShardedCache.Octets
