import RelStore.Json.Lex
import RelStore.Json.Write

/-! Texts in JSON: every text that is written between quotation marks is read back, byte
for byte. -/
namespace RelStore.Json

def utf8 (cs : List Char) : List UInt8 := cs.flatMap String.utf8EncodeChar

@[simp] theorem utf8_nil : utf8 [] = [] := rfl

@[simp] theorem utf8_cons (c : Char) (cs : List Char) :
    utf8 (c :: cs) = String.utf8EncodeChar c ++ utf8 cs := rfl

@[simp] theorem utf8_append (cs ds : List Char) : utf8 (cs ++ ds) = utf8 cs ++ utf8 ds :=
  List.flatMap_append

theorem toList_loop (b : ByteArray) (i : Nat) (r : List UInt8) :
    ByteArray.toList.loop b i r = r.reverse ++ b.data.toList.drop i := by
  fun_induction ByteArray.toList.loop b i r with
  | case1 i r h ih =>
    have hi : i < b.data.toList.length := h
    have hg : b.get! i = b.data.toList[i] := by
      show b.data[i]! = _
      rw [getElem!_pos b.data i h, Array.getElem_toList]
    rw [ih, List.drop_eq_getElem_cons hi]
    simp [hg]
  | case2 i r h =>
    have hi : b.data.toList.length ≤ i := Nat.le_of_not_lt h
    rw [List.drop_eq_nil_of_le hi, List.append_nil]

theorem toList_toUTF8 (s : String) : s.toUTF8.toList = utf8 s.toList := by
  rw [ByteArray.toList, toList_loop, String.toUTF8_eq_toByteArray, ← String.utf8Encode_toList]
  simp [List.utf8Encode, utf8]

theorem ofBytes?_utf8 (s : String) : ofBytes? (some (utf8 s.toList)) = some s := by
  have h : (utf8 s.toList).toByteArray = s.toByteArray := by
    rw [← String.utf8Encode_toList]
    rfl
  show String.fromUTF8? (utf8 s.toList).toByteArray = some s
  rw [h]
  unfold String.fromUTF8?
  rw [dif_pos s.isValidUTF8]
  rfl

/-- A byte that is neither a control nor a quotation mark nor a backslash. -/
def IsPlain (b : UInt8) : Prop := ¬ b < 0x20 ∧ b ≠ 0x22 ∧ b ≠ 0x5c

theorem isPlain_of_high {n : Nat} (h : 0x80 ≤ n) (hn : n < 256) : IsPlain (UInt8.ofNat n) := by
  have hb : (UInt8.ofNat n).toNat = n := by
    rw [UInt8.toNat_ofNat']
    omega
  refine ⟨?_, ?_, ?_⟩
  · rw [UInt8.lt_iff_toNat_lt, hb]
    show ¬ n < 32
    omega
  · intro he
    have hn : n = 34 := hb ▸ congrArg UInt8.toNat he
    omega
  · intro he
    have hn : n = 92 := hb ▸ congrArg UInt8.toNat he
    omega

theorem utf8EncodeChar_ascii {c : Char} (h : c.toNat < 0x80) :
    String.utf8EncodeChar c = [UInt8.ofNat c.toNat] := by
  have hv : c.val.toNat ≤ 0x7f := Nat.le_of_lt_succ h
  unfold String.utf8EncodeChar
  simp only [hv, if_true]
  rfl

theorem isPlain_of_not_ascii {c : Char} (h : ¬ c.toNat < 0x80) :
    ∀ b ∈ String.utf8EncodeChar c, IsPlain b := by
  have hv : ¬ c.val.toNat ≤ 0x7f := fun hle => h (Nat.lt_succ_of_le hle)
  intro b hb
  unfold String.utf8EncodeChar at hb
  simp only [hv, if_false] at hb
  split at hb
  · simp only [List.mem_cons, List.not_mem_nil, or_false] at hb
    obtain rfl | rfl := hb <;> apply isPlain_of_high <;> omega
  · split at hb
    · simp only [List.mem_cons, List.not_mem_nil, or_false] at hb
      obtain rfl | rfl | rfl := hb <;> apply isPlain_of_high <;> omega
    · simp only [List.mem_cons, List.not_mem_nil, or_false] at hb
      obtain rfl | rfl | rfl | rfl := hb <;> apply isPlain_of_high <;> omega

/-- A visible character of ASCII other than a quotation mark and a backslash is plain. -/
theorem isPlain_of_ascii {c : Char} (h : c.toNat < 0x80) (hc : ¬ c.toNat < 0x20)
    (hq : c ≠ '"') (hs : c ≠ '\\') : IsPlain (UInt8.ofNat c.toNat) := by
  have hb : (UInt8.ofNat c.toNat).toNat = c.toNat := by
    rw [UInt8.toNat_ofNat']
    omega
  refine ⟨?_, ?_, ?_⟩
  · rw [UInt8.lt_iff_toNat_lt, hb]
    exact hc
  · intro he
    have hn : c.toNat = 34 := hb ▸ congrArg UInt8.toNat he
    exact hq (Char.toNat_inj.1 hn)
  · intro he
    have hn : c.toNat = 92 := hb ▸ congrArg UInt8.toNat he
    exact hs (Char.toNat_inj.1 hn)

theorem prepend_prepend (bs cs : List UInt8) (r : TextBytes × List UInt8) :
    prepend bs (prepend cs r) = prepend (bs ++ cs) r := by
  obtain ⟨_ | ds, rest⟩ := r
  · rfl
  · simp [prepend]

@[simp] theorem extend_none (bs : List UInt8) : extend none bs = prepend bs := rfl

theorem textBody?_plain {b : UInt8} (h : IsPlain b) (rest : List UInt8) :
    textBody? none (b :: rest) = (textBody? none rest).map (prepend [b]) := by
  obtain ⟨hc, hq, hs⟩ := h
  rw [textBody?.eq_def]
  simp [hc, hq, hs]

theorem textBody?_plains {bs : List UInt8} (h : ∀ b ∈ bs, IsPlain b) (rest : List UInt8) :
    textBody? none (bs ++ rest) = (textBody? none rest).map (prepend bs) := by
  induction bs with
  | nil =>
    have hid : prepend [] = id := by
      funext r
      obtain ⟨_ | ds, rest⟩ := r <;> rfl
    rw [hid, Option.map_id, List.nil_append]
    rfl
  | cons b bs ih =>
    have hb := h b List.mem_cons_self
    have hbs := ih fun b hb => h b (List.mem_cons_of_mem _ hb)
    rw [List.cons_append, textBody?_plain hb, hbs, Option.map_map]
    congr 1
    funext r
    exact prepend_prepend [b] bs r

theorem textBody?_short {e c : UInt8} (he : e ≠ 0x75) (hc : shortEscape? e = some c)
    (rest : List UInt8) :
    textBody? none (0x5c :: e :: rest) = (textBody? none rest).map (prepend [c]) := by
  rw [textBody?.eq_def]
  simp [he, hc]

theorem hexDigit?_digitChar : ∀ d < 16,
    String.utf8EncodeChar (Nat.digitChar d) = [UInt8.ofNat (Nat.digitChar d).toNat] ∧
      hexDigit? (UInt8.ofNat (Nat.digitChar d).toNat) = some d := by decide

/-- A control by its code. -/
theorem textBody?_control {c : Char} (h : c.toNat < 0x20) (rest : List UInt8) :
    textBody? none (utf8 ['\\', 'u', '0', '0', Nat.digitChar (c.toNat / 16),
      Nat.digitChar (c.toNat % 16)] ++ rest) =
        (textBody? none rest).map (prepend (String.utf8EncodeChar c)) := by
  obtain ⟨hhi, hhi'⟩ := hexDigit?_digitChar (c.toNat / 16) (by omega)
  obtain ⟨hlo, hlo'⟩ := hexDigit?_digitChar (c.toNat % 16) (by omega)
  have hbytes : utf8 ['\\', 'u', '0', '0'] = [0x5c, 0x75, 0x30, 0x30] := by decide
  have hzero : hexDigit? 0x30 = some 0 := by decide
  have hn : c.toNat / 16 * 16 + c.toNat % 16 = c.toNat := by omega
  have hhex : hex4? 0x30 0x30 (UInt8.ofNat (Nat.digitChar (c.toNat / 16)).toNat)
      (UInt8.ofNat (Nat.digitChar (c.toNat % 16)).toNat) = some c.toNat := by
    simp [hex4?, hzero, hhi', hlo', hn]
  have hhigh : isHighSurrogate c.toNat = false := by
    simp [isHighSurrogate]
    omega
  have hlow : isLowSurrogate c.toNat = false := by
    simp [isLowSurrogate]
    omega
  have hb : utf8 ['\\', 'u', '0', '0', Nat.digitChar (c.toNat / 16),
      Nat.digitChar (c.toNat % 16)] = [0x5c, 0x75, 0x30, 0x30,
        UInt8.ofNat (Nat.digitChar (c.toNat / 16)).toNat,
        UInt8.ofNat (Nat.digitChar (c.toNat % 16)).toNat] := by
    show utf8 (['\\', 'u', '0', '0'] ++ [_, _]) = _
    rw [utf8_append, hbytes]
    simp [hhi, hlo]
  rw [hb]
  simp only [List.cons_append, List.nil_append]
  rw [textBody?.eq_def]
  simp [hhex, hhigh, hlow, Char.ofNat_toNat]

/-- A character, escaped if it has to be, is read as its bytes. -/
theorem textBody?_escapeChar (c : Char) (rest : List UInt8) :
    textBody? none (utf8 (escapeChar c) ++ rest) =
      (textBody? none rest).map (prepend (String.utf8EncodeChar c)) := by
  unfold escapeChar
  split
  · rename_i h
    subst h
    exact textBody?_short (e := 0x22) (c := 0x22) (by decide) (by decide) rest
  split
  · rename_i h
    subst h
    exact textBody?_short (e := 0x5c) (c := 0x5c) (by decide) (by decide) rest
  split
  · rename_i h
    obtain rfl : c = '\x08' := Char.toNat_inj.1 h
    exact textBody?_short (e := 0x62) (c := 0x08) (by decide) (by decide) rest
  split
  · rename_i h
    subst h
    exact textBody?_short (e := 0x74) (c := 0x09) (by decide) (by decide) rest
  split
  · rename_i h
    subst h
    exact textBody?_short (e := 0x6e) (c := 0x0a) (by decide) (by decide) rest
  split
  · rename_i h
    obtain rfl : c = '\x0c' := Char.toNat_inj.1 h
    exact textBody?_short (e := 0x66) (c := 0x0c) (by decide) (by decide) rest
  split
  · rename_i h
    subst h
    exact textBody?_short (e := 0x72) (c := 0x0d) (by decide) (by decide) rest
  split
  · rename_i h
    exact textBody?_control h rest
  · rename_i hq hs _ _ _ _ _ hc
    have hplain : ∀ b ∈ String.utf8EncodeChar c, IsPlain b := by
      by_cases h : c.toNat < 0x80
      · intro b hb
        rw [utf8EncodeChar_ascii h, List.mem_singleton] at hb
        subst hb
        exact isPlain_of_ascii h hc hq hs
      · exact isPlain_of_not_ascii h
    have hone : utf8 [c] = String.utf8EncodeChar c := by simp
    rw [hone]
    exact textBody?_plains hplain rest

theorem textBody?_escaped (cs : List Char) (rest : List UInt8) :
    textBody? none (utf8 (cs.flatMap escapeChar) ++ 0x22 :: rest) =
      some (some (utf8 cs), rest) := by
  induction cs with
  | nil =>
    rw [List.flatMap_nil, utf8_nil, List.nil_append, textBody?.eq_def]
    simp [prepend]
  | cons c cs ih =>
    rw [List.flatMap_cons, utf8_append, List.append_assoc, textBody?_escapeChar, ih]
    simp [prepend]

end RelStore.Json
