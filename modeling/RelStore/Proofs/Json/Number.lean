import RelStore.Proofs.Json.Text

/-! Whole numbers in JSON: digits that are written are read back as the number they show. -/
namespace RelStore.Json

def digitBytes (n : Nat) : List UInt8 := utf8 (Nat.toDigits 10 n)

theorem utf8EncodeChar_digitChar : ∀ d < 10,
    String.utf8EncodeChar (Nat.digitChar d) = [UInt8.ofNat (48 + d)] := by decide

theorem isDigit_ofNat : ∀ d < 10, isDigit (UInt8.ofNat (48 + d)) = true := by decide

theorem digit_ofNat : ∀ d < 10, digit (UInt8.ofNat (48 + d)) = d := by decide

theorem ofNat_ne_zero : ∀ d < 10, d ≠ 0 → UInt8.ofNat (48 + d) ≠ 0x30 := by decide

theorem digitBytes_eq (n : Nat) :
    digitBytes n = if n < 10 then [UInt8.ofNat (48 + n)]
      else digitBytes (n / 10) ++ [UInt8.ofNat (48 + n % 10)] := by
  rw [digitBytes, Nat.toDigits_eq_if (by decide)]
  split
  · rename_i h
    rw [utf8_cons, utf8EncodeChar_digitChar n h]
    rfl
  · rw [utf8_append, utf8_cons, utf8EncodeChar_digitChar (n % 10) (by omega)]
    rfl

theorem isDigit_of_mem_digitBytes (n : Nat) : ∀ b ∈ digitBytes n, isDigit b = true := by
  induction n using Nat.strongRecOn with
  | _ n ih =>
    intro b hb
    rw [digitBytes_eq] at hb
    split at hb
    · rename_i h
      rw [List.mem_singleton] at hb
      rw [hb]
      exact isDigit_ofNat n h
    · rename_i h
      rcases List.mem_append.1 hb with hb | hb
      · exact ih (n / 10) (by omega) b hb
      · rw [List.mem_singleton] at hb
        rw [hb]
        exact isDigit_ofNat (n % 10) (by omega)

theorem digitBytes_ne_nil (n : Nat) : digitBytes n ≠ [] := by
  rw [digitBytes_eq]
  split <;> simp

/-- Only a zero begins with one. -/
theorem head?_digitBytes {n : Nat} (h : n ≠ 0) : (digitBytes n).head? ≠ some 0x30 := by
  induction n using Nat.strongRecOn with
  | _ n ih =>
    rw [digitBytes_eq]
    split
    · rename_i hn
      rw [List.head?_cons]
      exact fun he => ofNat_ne_zero n hn h (Option.some.inj he)
    · rename_i hn
      have hrec := ih (n / 10) (by omega) (by omega)
      cases hb : digitBytes (n / 10) with
      | nil => exact absurd hb (digitBytes_ne_nil _)
      | cons b bs =>
        rw [hb] at hrec
        exact hrec

def ofDigits (n : Nat) (ds : List Nat) : Nat := ds.foldl (fun n d => 10 * n + d) n

theorem ofDigits_digitBytes (n : Nat) : ofDigits 0 ((digitBytes n).map digit) = n := by
  induction n using Nat.strongRecOn with
  | _ n ih =>
    rw [digitBytes_eq]
    split
    · rename_i h
      show 10 * 0 + digit (UInt8.ofNat (48 + n)) = n
      rw [digit_ofNat n h]
      omega
    · rename_i h
      have hrec := ih (n / 10) (by omega)
      rw [ofDigits] at hrec
      rw [List.map_append, ofDigits, List.foldl_append, hrec]
      simp only [List.map_cons, List.map_nil, List.foldl_cons, List.foldl_nil,
        digit_ofNat (n % 10) (by omega)]
      omega

theorem le_ofDigits (n : Nat) (ds : List Nat) : n ≤ ofDigits n ds := by
  induction ds generalizing n with
  | nil => exact Nat.le_refl n
  | cons d ds ih =>
    have h := ih (10 * n + d)
    show n ≤ ofDigits (10 * n + d) ds
    omega

/-- Digits of a number of 64 bits are all taken. -/
theorem takeWhole_eq {n : Nat} {ds : List Nat} (h : ofDigits n ds ≤ Numeral.mostNatural) :
    Numeral.takeWhole n 0 ds = (ofDigits n ds, 0) := by
  induction ds generalizing n with
  | nil => rfl
  | cons d ds ih =>
    have hd : 10 * n + d ≤ Numeral.mostNatural := Nat.le_trans (le_ofDigits _ ds) h
    rw [Numeral.takeWhole, if_pos ⟨rfl, hd⟩]
    exact ih h

/-- Bytes that cannot continue a whole number. -/
def Ends (rest : List UInt8) : Prop :=
  ∀ b ∈ rest.head?, isDigit b = false ∧ b ≠ 0x2e ∧ b ≠ 0x65 ∧ b ≠ 0x45

theorem ends_nil : Ends [] := nofun

theorem ends_cons {b : UInt8} {rest : List UInt8}
    (h : isDigit b = false ∧ b ≠ 0x2e ∧ b ≠ 0x65 ∧ b ≠ 0x45) : Ends (b :: rest) := by
  intro c hc
  cases hc
  exact h

theorem Ends.takeWhile {rest : List UInt8} (h : Ends rest) : rest.takeWhile isDigit = [] := by
  cases rest with
  | nil => rfl
  | cons b rest => simp [(h b rfl).1]

theorem Ends.dropWhile {rest : List UInt8} (h : Ends rest) :
    rest.dropWhile isDigit = rest := by
  cases rest with
  | nil => rfl
  | cons b rest => simp [(h b rfl).1]

theorem Ends.fraction? {rest : List UInt8} (h : Ends rest) : fraction? rest = some ([], rest) := by
  cases rest with
  | nil => rfl
  | cons b rest => simp [Json.fraction?, (h b rfl).2.1]

theorem Ends.exponent? {rest : List UInt8} (h : Ends rest) :
    exponent? rest = some (none, rest) := by
  cases rest with
  | nil => rfl
  | cons b rest => simp [Json.exponent?, (h b rfl).2.2]

theorem numeral?_digitBytes (negative : Bool) (n : Nat) {rest : List UInt8} (h : Ends rest) :
    numeral? negative (digitBytes n ++ rest) =
      some (⟨negative, (digitBytes n).map digit, [], none⟩, rest) := by
  have hd := isDigit_of_mem_digitBytes n
  have htake : (digitBytes n ++ rest).takeWhile isDigit = digitBytes n := by
    rw [List.takeWhile_append_of_pos hd, h.takeWhile, List.append_nil]
  have hdrop : (digitBytes n ++ rest).dropWhile isDigit = rest := by
    rw [List.dropWhile_append_of_pos hd, h.dropWhile]
  have hlead : ((digitBytes n).isEmpty ||
      ((digitBytes n).head? == some 0x30 && 1 < (digitBytes n).length)) = false := by
    have hne := digitBytes_ne_nil n
    by_cases hn : n = 0
    · subst hn
      decide
    · have hhead := head?_digitBytes hn
      simp [hne, hhead]
  simp only [numeral?, htake, hlead, hdrop, h.fraction?, Bool.false_eq_true, if_false,
    Option.bind_eq_bind, Option.bind_some, h.exponent?]
  rfl

theorem takeWhole_digitBytes {n : Nat} (h : n ≤ Numeral.mostNatural) :
    Numeral.takeWhole 0 0 ((digitBytes n).map digit) = (n, 0) := by
  have hdigits := ofDigits_digitBytes n
  have htake : Numeral.takeWhole 0 0 ((digitBytes n).map digit) = (ofDigits 0 _, 0) :=
    takeWhole_eq (by rw [hdigits]; exact h)
  rw [hdigits] at htake
  exact htake

theorem value?_natural {n : Nat} (h : n ≤ Numeral.mostNatural) :
    Numeral.value? ⟨false, (digitBytes n).map digit, [], none⟩ = some (.natural n) := by
  have ht := takeWhole_digitBytes h
  simp [Numeral.value?, ht]

theorem value?_negative {n : Nat} (h : n ≠ 0) (hn : n ≤ UInt64.size / 2) :
    Numeral.value? ⟨true, (digitBytes n).map digit, [], none⟩ = some (.negative n) := by
  have hm : n ≤ Numeral.mostNatural := Nat.le_trans hn (by decide)
  have ht := takeWhole_digitBytes hm
  simp [Numeral.value?, ht, h, hn]

/-- A digit is no other byte. -/
theorem beq_eq_false_of_isDigit {b c : UInt8} (h : isDigit b = true) (hc : isDigit c = false) :
    (b == c) = false := by
  rw [beq_eq_false_iff_ne]
  intro hbc
  rw [← hbc, h] at hc
  cases hc

theorem token?_digit {b : UInt8} (h : isDigit b = true) (rest : List UInt8) :
    token? b rest = (numeral? false (b :: rest)).map fun r => (.number r.1.value?, r.2) := by
  have hne : ∀ c : UInt8, isDigit c = false → (b == c) = false :=
    fun c => beq_eq_false_of_isDigit h
  unfold token?
  simp only [hne 0x5b (by decide), hne 0x5d (by decide), hne 0x7b (by decide),
    hne 0x7d (by decide), hne 0x2c (by decide), hne 0x3a (by decide), hne 0x22 (by decide),
    hne 0x2d (by decide), h, if_true, Bool.false_eq_true, if_false]

theorem token?_minus (rest : List UInt8) :
    token? 0x2d rest = (numeral? true rest).map fun r => (.number r.1.value?, r.2) := rfl

theorem utf8_display_natural (n : Nat) :
    utf8 (Number.natural n).display.toList = digitBytes n := by
  show utf8 n.repr.toList = _
  rw [Nat.toList_repr]
  rfl

theorem utf8_display_negative (n : Nat) :
    utf8 (Number.negative n).display.toList = 0x2d :: digitBytes n := by
  show utf8 ("-" ++ n.repr).toList = _
  rw [String.toList_append, Nat.toList_repr]
  rfl

end RelStore.Json
