import Mathlib.Data.List.DropRight
import Mathlib.Data.List.Nodup
import RelStore.Token.Scan

/-! What the tokens of a text are: lexemes with white space between them make up the text, and
a token stands where its lexeme begins. Nothing is said about how they are found, and yet every
text has one such row of tokens only. -/
namespace RelStore
namespace Keyword
variable {k k' : Keyword} {w : String}

theorem word_inj (h : k.word = k'.word) : k = k' := by
  have hnodup : (all.map word).Nodup := by decide
  exact List.inj_on_of_nodup_map hnodup k.mem_all k'.mem_all h

theorem word_eq_cons (k : Keyword) :
    ∃ c cs, k.word.toList = c :: cs ∧ ∀ d ∈ c :: cs, d.isLower = true := by
  cases k <;> exact ⟨_, _, rfl, List.all_eq_true.1 (by decide)⟩

/-- A word is a keyword if it is one in small letters. -/
theorem ofWord?_eq_some_iff :
    ofWord? w = some k ↔ w.toList.map Char.toLower = k.word.toList := by
  have hword : ∀ k : Keyword, (k.word == String.ofList (w.toList.map Char.toLower)) = true ↔
      w.toList.map Char.toLower = k.word.toList := by
    intro k
    rw [beq_iff_eq, ← String.toList_inj, String.toList_ofList, eq_comm]
  constructor
  · intro h
    have hk := List.find?_some h
    exact (hword k).1 hk
  · intro h
    cases hfound : ofWord? w with
    | none =>
      have hnone := List.find?_eq_none.1 hfound k k.mem_all
      exact absurd ((hword k).2 h) hnone
    | some k' =>
      have hk' := List.find?_some hfound
      rw [word_inj (String.toList_inj.1 (((hword k').1 hk').symm.trans h))]

theorem ofWord?_eq_none_iff :
    ofWord? w = none ↔ ∀ k : Keyword, w.toList.map Char.toLower ≠ k.word.toList := by
  simp only [Option.eq_none_iff_forall_ne_some, ne_eq, ofWord?_eq_some_iff]

end Keyword

namespace Token

def place (before : List Char) : Position :=
  ⟨1 + before.count '\n', 1 + (before.rtakeWhile (· != '\n')).length⟩

theorem place_concat (before : List Char) (c : Char) :
    place (before ++ [c]) = (place before).after c := by
  by_cases hc : c = '\n'
  · subst hc
    simp [place, Position.after, Nat.add_assoc]
  · simp [place, Position.after, hc, Nat.add_assoc]

theorem place_append (before cs : List Char) :
    place (before ++ cs) = (place before).afterAll cs := by
  induction cs generalizing before with
  | nil => rw [List.append_nil, Position.afterAll_nil]
  | cons c cs ih => rw [List.append_cons, ih, place_concat, Position.afterAll_cons]

/-- The complete ways to write a token. A keyword may be written in any case. -/
inductive Spelling : Kind → List Char → Prop
  | keyword {k cs} (h : cs.map Char.toLower = k.word.toList) : Spelling (.keyword k) cs
  | number {c cs} (h : ∀ d ∈ c :: cs, d.isDigit = true) :
    Spelling (.number (String.ofList (c :: cs))) (c :: cs)
  | text {cs} (h : '\'' ∉ cs) : Spelling (.text (String.ofList cs)) ('\'' :: cs ++ ['\''])
  | identifier {c cs} (hc : isWordStart c = true) (hcs : ∀ d ∈ cs, isWordPart d = true)
    (hk : ∀ k : Keyword, (c :: cs).map Char.toLower ≠ k.word.toList) :
    Spelling (.identifier (String.ofList (c :: cs))) (c :: cs)
  | equal : Spelling .equal ['=']
  | star : Spelling .star ['*']
  | comma : Spelling .comma [',']
  | leftParen : Spelling .leftParen ['(']
  | rightParen : Spelling .rightParen [')']
  | illegal {c} (hblank : Text.isBlank c = false) (hword : isWordPart c = false)
    (hmark : c ∉ ['\'', '=', '*', ',', '(', ')']) : Spelling (.illegal c) [c]

def Kind.takes : Kind → Char → Bool
  | .number _, d => d.isDigit
  | .keyword _, d => isWordPart d
  | .identifier _, d => isWordPart d
  | _, _ => false

/-- The stretch of a token with `rest` behind it: all that the token takes, and for a text
without a second quote all that there is. -/
inductive IsLexeme : Kind → List Char → List Char → Prop
  | whole {kind body rest} (h : Spelling kind body)
    (hrest : ∀ d ∈ rest.head?, kind.takes d = false) : IsLexeme kind body rest
  | unclosed {cs} (h : '\'' ∉ cs) : IsLexeme (.text (String.ofList cs)) ('\'' :: cs) []

def IsGap (cs : List Char) : Prop := ∀ c ∈ cs, Text.isBlank c = true

instance (cs : List Char) : Decidable (IsGap cs) :=
  decidable_of_iff (cs.all Text.isBlank = true) List.all_eq_true

/-- The tokens of what is left of a text behind the characters `before`. -/
inductive Tiling : List Char → List Char → List Token → Prop
  | done {before gap} (hgap : IsGap gap) :
    Tiling before gap [⟨.endOfInput, place (before ++ gap)⟩]
  | token {before gap kind body rest ts} (hgap : IsGap gap) (hbody : IsLexeme kind body rest)
    (hts : Tiling (before ++ gap ++ body) rest ts) :
    Tiling before (gap ++ body ++ rest) (⟨kind, place (before ++ gap)⟩ :: ts)

variable {k : Keyword} {kind : Kind} {before gap body rest cs : List Char} {c d : Char}
  {ts : List Token} {p : Position}

/-- A condition that the characters of a stretch meet, and the one behind them does not. -/
theorem takeWhile_stretch {f : Char → Bool} (h : ∀ d ∈ cs, f d = true)
    (hrest : ∀ d ∈ rest.head?, f d = false) : (cs ++ rest).takeWhile f = cs := by
  rw [List.takeWhile_append_of_pos h]
  cases rest with
  | nil => simp
  | cons d rest => simp [hrest d rfl]

theorem dropWhile_stretch {f : Char → Bool} (h : ∀ d ∈ cs, f d = true)
    (hrest : ∀ d ∈ rest.head?, f d = false) : (cs ++ rest).dropWhile f = rest := by
  rw [List.dropWhile_append_of_pos h]
  cases rest with
  | nil => rfl
  | cons d rest => simp [hrest d rfl]

theorem head?_dropWhile {f : Char → Bool} : ∀ d ∈ (cs.dropWhile f).head?, f d = false := by
  intro d hd
  have h := List.head?_dropWhile_not f cs
  rw [Option.mem_def] at hd
  rw [hd] at h
  exact h

theorem isUpper_iff : c.isUpper = true ↔ 65 ≤ c.toNat ∧ c.toNat ≤ 90 := decide_eq_true_iff

theorem isLower_iff : c.isLower = true ↔ 97 ≤ c.toNat ∧ c.toNat ≤ 122 := by
  show (decide (c.val ≥ 97) && decide (c.val ≤ 122)) = true ↔ _
  rw [Bool.and_eq_true, decide_eq_true_iff, decide_eq_true_iff]
  exact Iff.rfl

theorem isAlpha_iff : c.isAlpha = true ↔ c.isUpper = true ∨ c.isLower = true :=
  Bool.or_eq_true_iff

theorem isDigit_iff : c.isDigit = true ↔ 48 ≤ c.toNat ∧ c.toNat ≤ 57 := Char.isDigit_iff_toNat

theorem isWordStart_iff : isWordStart c = true ↔
    (65 ≤ c.toNat ∧ c.toNat ≤ 90 ∨ 97 ≤ c.toNat ∧ c.toNat ≤ 122) ∨
      c.toNat = 95 ∨ c.toNat = 46 := by
  rw [isWordStart, Bool.or_eq_true, Bool.or_eq_true, isAlpha_iff, isUpper_iff, isLower_iff,
    beq_iff_eq, beq_iff_eq, ← Char.toNat_inj, ← Char.toNat_inj, or_assoc]
  exact Iff.rfl

theorem isWordPart_bounds (h : isWordPart c = true) : 46 ≤ c.toNat ∧ c.toNat ≤ 122 := by
  rw [isWordPart, Bool.or_eq_true, isWordStart_iff, isDigit_iff] at h
  omega

theorem isBlank_bounds (h : Text.isBlank c = true) : c.toNat ≤ 32 ∨ 133 ≤ c.toNat := by
  simp [Text.isBlank] at h
  omega

theorem isWordPart_of_isBlank (h : Text.isBlank c = true) : isWordPart c = false := by
  rw [Bool.eq_false_iff]
  intro hpart
  have hbounds := isWordPart_bounds hpart
  have hblank := isBlank_bounds h
  omega

theorem isWordPart_of_isDigit (h : c.isDigit = true) : isWordPart c = true := by
  rw [isWordPart, h, Bool.or_true]

theorem isWordPart_of_isWordStart (h : isWordStart c = true) : isWordPart c = true := by
  rw [isWordPart, h, Bool.true_or]

theorem ne_quote_of_isWordPart (h : isWordPart c = true) : c ≠ '\'' := by
  rintro rfl
  cases h

theorem isDigit_of_isWordStart (h : isWordStart c = true) : c.isDigit = false := by
  rw [Bool.eq_false_iff]
  intro hdigit
  rw [isWordStart_iff] at h
  rw [isDigit_iff] at hdigit
  omega

theorem isAlpha_of_isLower_toLower (h : c.toLower.isLower = true) : c.isAlpha = true := by
  unfold Char.toLower at h
  split at h
  · rename_i hupper
    exact isAlpha_iff.2 (.inl (decide_eq_true hupper))
  · exact isAlpha_iff.2 (.inr h)

/-- In whatever case it is written, a keyword is a word. -/
theorem word_of_keyword (h : cs.map Char.toLower = k.word.toList) :
    ∃ c ds, cs = c :: ds ∧ isWordStart c = true ∧ ∀ d ∈ ds, isWordPart d = true := by
  obtain ⟨l, ls, hword, hlower⟩ := k.word_eq_cons
  rw [hword] at h
  obtain ⟨c, ds, rfl, rfl, rfl⟩ := List.map_eq_cons_iff.1 h
  have hstart : ∀ d ∈ c :: ds, isWordStart d = true := by
    intro d hd
    have halpha := isAlpha_of_isLower_toLower (hlower d.toLower (List.mem_map_of_mem hd))
    rw [isWordStart, halpha, Bool.true_or, Bool.true_or]
  refine ⟨c, ds, rfl, hstart c List.mem_cons_self, fun d hd => ?_⟩
  exact isWordPart_of_isWordStart (hstart d (List.mem_cons_of_mem c hd))

theorem lexeme_word (hc : isWordStart c = true) (hcs : ∀ d ∈ cs, isWordPart d = true)
    (hrest : ∀ d ∈ rest.head?, isWordPart d = false) :
    lexeme c (cs ++ rest) = ⟨.ofWord (String.ofList (c :: cs)), c :: cs, rest⟩ := by
  have hquote := ne_quote_of_isWordPart (isWordPart_of_isWordStart hc)
  rw [lexeme, if_neg hquote, isDigit_of_isWordStart hc, if_neg Bool.false_ne_true, if_pos hc,
    takeWhile_stretch hcs hrest, dropWhile_stretch hcs hrest]

theorem lexeme_quote (h : '\'' ∉ cs) (hrest : ∀ d ∈ rest.head?, d = '\'') :
    lexeme '\'' (cs ++ rest) =
      ⟨.text (String.ofList cs), '\'' :: (cs ++ rest.take 1), rest.drop 1⟩ := by
  have hcs : ∀ d ∈ cs, (d != '\'') = true := by
    intro d hd
    rw [bne_iff_ne]
    exact fun hq => h (hq ▸ hd)
  have hstop : ∀ d ∈ rest.head?, (d != '\'') = false := by
    intro d hd
    rw [hrest d hd]
    rfl
  rw [lexeme, if_pos rfl]
  simp only [takeWhile_stretch hcs hstop, dropWhile_stretch hcs hstop]

theorem ofWord_keyword (h : cs.map Char.toLower = k.word.toList) :
    Kind.ofWord (String.ofList cs) = .keyword k := by
  rw [← String.toList_ofList (l := cs)] at h
  rw [Kind.ofWord, Keyword.ofWord?_eq_some_iff.2 h]

theorem ofWord_identifier (h : ∀ k : Keyword, cs.map Char.toLower ≠ k.word.toList) :
    Kind.ofWord (String.ofList cs) = .identifier (String.ofList cs) := by
  rw [← String.toList_ofList (l := cs)] at h
  rw [Kind.ofWord, Keyword.ofWord?_eq_none_iff.2 h]

theorem lexeme_of_spelling (h : Spelling kind body)
    (hrest : ∀ d ∈ rest.head?, kind.takes d = false) :
    ∃ c cs, body ++ rest = c :: cs ∧ Text.isBlank c = false ∧ lexeme c cs = ⟨kind, body, rest⟩ := by
  have hblank : ∀ {c}, isWordPart c = true → Text.isBlank c = false := by
    intro c hc
    rw [Bool.eq_false_iff]
    intro hb
    rw [isWordPart_of_isBlank hb] at hc
    cases hc
  cases h with
  | @keyword k body h =>
    obtain ⟨c, cs, rfl, hc, hcs⟩ := word_of_keyword h
    refine ⟨c, cs ++ rest, rfl, hblank (isWordPart_of_isWordStart hc), ?_⟩
    rw [lexeme_word hc hcs hrest, ofWord_keyword h]
  | @number c cs h =>
    have hc := h c List.mem_cons_self
    have hcs : ∀ d ∈ cs, d.isDigit = true := fun d hd => h d (List.mem_cons_of_mem c hd)
    refine ⟨c, cs ++ rest, rfl, hblank (isWordPart_of_isDigit hc), ?_⟩
    have hquote := ne_quote_of_isWordPart (isWordPart_of_isDigit hc)
    rw [lexeme, if_neg hquote, if_pos hc, takeWhile_stretch hcs hrest, dropWhile_stretch hcs hrest]
  | @text cs h =>
    refine ⟨'\'', cs ++ ('\'' :: rest), by simp, by decide, ?_⟩
    rw [lexeme_quote h (by simp)]
    rfl
  | @identifier c cs hc hcs hk =>
    refine ⟨c, cs ++ rest, rfl, hblank (isWordPart_of_isWordStart hc), ?_⟩
    rw [lexeme_word hc hcs hrest, ofWord_identifier hk]
  | @illegal c hb hword hmark =>
    refine ⟨c, rest, rfl, hb, ?_⟩
    obtain ⟨hstart, hdigit⟩ : isWordStart c = false ∧ c.isDigit = false := by
      simpa [isWordPart] using hword
    simp only [List.mem_cons, List.not_mem_nil, or_false, not_or] at hmark
    obtain ⟨hquote, hequal, hstar, hcomma, hleft, hright⟩ := hmark
    rw [lexeme, if_neg hquote, hdigit, if_neg Bool.false_ne_true, hstart, if_neg Bool.false_ne_true,
      Kind.ofMark, if_neg hequal, if_neg hstar, if_neg hcomma, if_neg hleft, if_neg hright]
  | _ => exact ⟨_, rest, rfl, by decide, rfl⟩

theorem lexeme_of_isLexeme (h : IsLexeme kind body rest) :
    ∃ c cs, body ++ rest = c :: cs ∧ Text.isBlank c = false ∧ lexeme c cs = ⟨kind, body, rest⟩ := by
  cases h with
  | whole h hrest => exact lexeme_of_spelling h hrest
  | @unclosed cs h =>
    have hlexeme : lexeme '\'' (cs ++ []) = ⟨.text (String.ofList cs), '\'' :: (cs ++ []), []⟩ :=
      lexeme_quote h nofun
    rw [List.append_nil] at hlexeme
    exact ⟨'\'', cs, List.append_nil _, by decide, hlexeme⟩

theorem isLexeme_word (hc : isWordStart c = true) (hcs : ∀ d ∈ cs, isWordPart d = true)
    (hrest : ∀ d ∈ rest.head?, isWordPart d = false) :
    IsLexeme (.ofWord (String.ofList (c :: cs))) (c :: cs) rest := by
  unfold Kind.ofWord
  split
  · rename_i hk
    have hk := Keyword.ofWord?_eq_some_iff.1 hk
    rw [String.toList_ofList] at hk
    exact .whole (.keyword hk) hrest
  · rename_i hk
    have hk := Keyword.ofWord?_eq_none_iff.1 hk
    rw [String.toList_ofList] at hk
    exact .whole (.identifier hc hcs hk) hrest

theorem isLexeme_mark (hblank : Text.isBlank c = false) (hword : isWordPart c = false)
    (hquote : c ≠ '\'') : IsLexeme (.ofMark c) [c] rest := by
  unfold Kind.ofMark
  split
  · subst c
    exact .whole .equal (by simp [Kind.takes])
  split
  · subst c
    exact .whole .star (by simp [Kind.takes])
  split
  · subst c
    exact .whole .comma (by simp [Kind.takes])
  split
  · subst c
    exact .whole .leftParen (by simp [Kind.takes])
  split
  · subst c
    exact .whole .rightParen (by simp [Kind.takes])
  · exact .whole (.illegal hblank hword (by simp [*])) (by simp [Kind.takes])

theorem isLexeme_quote :
    IsLexeme (lexeme '\'' cs).kind (lexeme '\'' cs).body (lexeme '\'' cs).rest := by
  have hinside : '\'' ∉ cs.takeWhile (fun d => d != '\'') := by
    intro h
    simpa using List.mem_takeWhile_imp h
  have hstop : ∀ d ∈ (cs.dropWhile (fun d => d != '\'')).head?, (d != '\'') = false :=
    head?_dropWhile
  rw [lexeme, if_pos rfl]
  dsimp only
  generalize cs.dropWhile (fun d => d != '\'') = tail at hstop
  cases tail with
  | nil =>
    rw [List.take_nil, List.append_nil, List.drop_nil]
    exact .unclosed hinside
  | cons d tail =>
    obtain rfl : d = '\'' := by simpa using hstop d rfl
    exact .whole (.text hinside) (by simp [Kind.takes])

theorem isLexeme_lexeme (hblank : Text.isBlank c = false) :
    IsLexeme (lexeme c cs).kind (lexeme c cs).body (lexeme c cs).rest := by
  by_cases hquote : c = '\''
  · subst c
    exact isLexeme_quote
  rw [lexeme, if_neg hquote]
  split
  · rename_i hdigit
    refine .whole (.number ?_) head?_dropWhile
    exact List.forall_mem_cons.2 ⟨hdigit, fun d hd => List.mem_takeWhile_imp hd⟩
  split
  · rename_i hstart
    dsimp only
    exact isLexeme_word hstart (fun d hd => List.mem_takeWhile_imp hd) head?_dropWhile
  · rename_i hdigit hstart
    exact isLexeme_mark hblank (by simp [isWordPart, hdigit, hstart]) hquote

theorem isGap_nil : IsGap [] := nofun

theorem scanFrom_gap (p : Position) (hgap : IsGap gap) (cs : List Char) :
    scanFrom p (gap ++ cs) = scanFrom (p.afterAll gap) cs := by
  induction gap generalizing p with
  | nil => rfl
  | cons c gap ih =>
    obtain ⟨hc, hgap⟩ := List.forall_mem_cons.1 hgap
    rw [List.cons_append, scanFrom_cons, if_pos hc, ih _ hgap, Position.afterAll_cons]

/-- There are no other tokens than those that are found. -/
theorem scanFrom_of_tiling (h : Tiling before cs ts) : scanFrom (place before) cs = ts := by
  induction h with
  | @done before gap hgap =>
    rw [← List.append_nil gap, scanFrom_gap _ hgap, scanFrom_nil, List.append_nil, place_append]
  | @token before gap kind body rest ts hgap hbody _ ih =>
    obtain ⟨c, cs, hcs, hblank, hlexeme⟩ := lexeme_of_isLexeme hbody
    rw [List.append_assoc, scanFrom_gap _ hgap, hcs, scanFrom_cons, if_neg (by simp [hblank]),
      hlexeme, ← place_append, ← place_append, ih]

/-- White space may be added in front. -/
theorem Tiling.cons (hc : Text.isBlank c = true) (h : Tiling (before ++ [c]) cs ts) :
    Tiling before (c :: cs) ts := by
  have hgap : ∀ {gap}, IsGap gap → IsGap (c :: gap) := fun h => List.forall_mem_cons.2 ⟨hc, h⟩
  cases h with
  | @done _ _ hgap' =>
    rw [← List.append_cons]
    exact .done (hgap hgap')
  | @token _ gap kind body rest ts hgap' hbody hts =>
    rw [← List.append_cons] at hts ⊢
    exact .token (hgap hgap') hbody hts

theorem tiling_scanFrom (h : p = place before) : Tiling before cs (scanFrom p cs) := by
  induction p, cs using scanFrom.induct generalizing before with
  | case1 p =>
    have hts : Tiling before [] [⟨.endOfInput, place (before ++ [])⟩] := .done isGap_nil
    rw [List.append_nil] at hts
    rw [scanFrom_nil, h]
    exact hts
  | case2 p c cs hc ih =>
    rw [scanFrom_cons, if_pos hc]
    exact .cons hc (ih (by rw [place_concat, h]))
  | case3 p c cs hc ih =>
    have hplace : p.afterAll (lexeme c cs).body = place (before ++ [] ++ (lexeme c cs).body) := by
      rw [place_append, List.append_nil, h]
    have hts := ih hplace
    have htiling := Tiling.token isGap_nil (isLexeme_lexeme (by simpa using hc)) hts
    rw [List.nil_append, lexeme_body_rest, List.append_nil] at htiling
    rw [scanFrom_cons, if_neg hc, h]
    rw [h] at htiling
    exact htiling

theorem scan_eq_iff {text : String} : scan text = ts ↔ Tiling [] text.toList ts := by
  constructor
  · rintro rfl
    exact tiling_scanFrom rfl
  · exact scanFrom_of_tiling

theorem kind_ne_endOfInput (h : IsLexeme kind body rest) : kind ≠ .endOfInput := by
  rintro rfl
  cases h with
  | whole h => cases h

theorem Tiling.end (h : Tiling before cs ts) :
    ∃ front, ts = front ++ [⟨.endOfInput, place (before ++ cs)⟩] ∧
      ∀ t ∈ front, t.kind ≠ .endOfInput := by
  induction h with
  | done => exact ⟨[], rfl, nofun⟩
  | @token before gap kind body rest ts _ hbody _ ih =>
    obtain ⟨front, rfl, hfront⟩ := ih
    refine ⟨⟨kind, place (before ++ gap)⟩ :: front, ?_,
      List.forall_mem_cons.2 ⟨kind_ne_endOfInput hbody, hfront⟩⟩
    simp only [List.cons_append, List.append_assoc]

/-- The tokens of a text tile it, and no others do. The last of them, and none but the last,
is the end of input, and it stands where the text ends. -/
theorem scan_tiles (text : String) :
    Tiling [] text.toList (scan text) ∧
      (∀ ts, Tiling [] text.toList ts → ts = scan text) ∧
      ∃ front, scan text = front ++ [⟨.endOfInput, place text.toList⟩] ∧
        ∀ t ∈ front, t.kind ≠ .endOfInput := by
  have htiling : Tiling [] text.toList (scan text) := scan_eq_iff.1 rfl
  refine ⟨htiling, fun ts hts => (scan_eq_iff.2 hts).symm, ?_⟩
  obtain ⟨front, hscan, hfront⟩ := htiling.end
  exact ⟨front, by rw [hscan, List.nil_append], hfront⟩

end Token
end RelStore
