import RelStore.Proofs.Statement.Cursor
import RelStore.Proofs.Statement.Lookahead
import RelStore.Proofs.Token.Tiling

/-! Tokens written out. A row of tokens can be written in many ways, for white space and the
case of keywords are free; each of them is read as these tokens again, and so all of them are
the same statement or stop being one at the same token. -/
namespace RelStore
namespace Token

/-- The ways to write some tokens: each of them in a spelling of it, with white space around
them as one likes and at least a character of it between one and the next. -/
inductive Rendering : List Kind → List Char → Prop
  | nil {gap} (hgap : IsGap gap) : Rendering [] gap
  | cons {gap kind body kinds rest} (hgap : IsGap gap) (hbody : Spelling kind body)
    (hrest : Rendering kinds rest)
    (hapart : kinds = [] ∨ rest.head?.any Text.isBlank = true) :
    Rendering (kind :: kinds) (gap ++ body ++ rest)

variable {kinds : List Kind} {cs : List Char} {kind : Kind}

theorem takes_of_isBlank {c : Char} (h : Text.isBlank c = true) : kind.takes c = false := by
  have hword := isWordPart_of_isBlank h
  cases kind with
  | number digits =>
    rw [Kind.takes, Bool.eq_false_iff]
    intro hdigit
    rw [isWordPart_of_isDigit hdigit] at hword
    cases hword
  | keyword k => exact hword
  | identifier name => exact hword
  | _ => rfl

theorem tiling_of_rendering (h : Rendering kinds cs) (before : List Char) :
    ∃ ts, Tiling before cs ts ∧ ts.map Token.kind = kinds ++ [.endOfInput] := by
  induction h generalizing before with
  | nil hgap => exact ⟨_, .done hgap, rfl⟩
  | @cons gap kind body kinds rest hgap hbody hrest hapart ih =>
    obtain ⟨ts, hts, hkinds⟩ := ih (before ++ gap ++ body)
    have hblank : ∀ c ∈ rest.head?, kind.takes c = false := by
      intro c hc
      cases hrest with
      | nil hgap' => exact takes_of_isBlank (hgap' c (List.mem_of_mem_head? hc))
      | cons =>
        have hany := hapart.resolve_left nofun
        rw [Option.mem_def.1 hc] at hany
        exact takes_of_isBlank hany
    refine ⟨_, .token hgap (.whole hbody hblank) hts, ?_⟩
    rw [List.map_cons, hkinds, List.cons_append]

theorem scan_of_rendering {text : String} (h : Rendering kinds text.toList) :
    (scan text).map Token.kind = kinds ++ [.endOfInput] := by
  obtain ⟨ts, hts, hkinds⟩ := tiling_of_rendering h []
  rw [scan_eq_iff.2 hts, hkinds]

def Writable (kinds : List Kind) : Prop := ∀ kind ∈ kinds, ∃ body, Spelling kind body

theorem writable_nil : Writable [] := nofun

theorem writable_cons_iff :
    Writable (kind :: kinds) ↔ (∃ body, Spelling kind body) ∧ Writable kinds :=
  List.forall_mem_cons

theorem writable_append_iff {kinds' : List Kind} :
    Writable (kinds ++ kinds') ↔ Writable kinds ∧ Writable kinds' := List.forall_mem_append

theorem rendering_of_writable (h : Writable kinds) : ∃ cs, Rendering kinds (' ' :: cs) := by
  have hspace : IsGap [' '] := by decide
  induction kinds with
  | nil => exact ⟨[], .nil hspace⟩
  | cons kind kinds ih =>
    obtain ⟨⟨body, hbody⟩, hkinds⟩ := writable_cons_iff.1 h
    obtain ⟨cs, hcs⟩ := ih hkinds
    exact ⟨body ++ ' ' :: cs, .cons hspace hbody hcs (.inr rfl)⟩

theorem scan_of_writable (h : Writable kinds) :
    ∃ text, (scan text).map Token.kind = kinds ++ [.endOfInput] := by
  obtain ⟨cs, hcs⟩ := rendering_of_writable h
  refine ⟨String.ofList (' ' :: cs), scan_of_rendering ?_⟩
  rw [String.toList_ofList]
  exact hcs

end Token

namespace Statement

open Token (Rendering scan)

variable {kinds : List Token.Kind} {ts ts' : List Token}

theorem map_kind_proper (ts : List Token) :
    (proper ts).map Token.kind = (ts.map Token.kind).takeWhile (· != .endOfInput) := by
  rw [List.takeWhile_map]
  rfl

/-- Tokens of the same kinds are the same statement, or they stop being one at tokens of the
same kind, where the same was expected. -/
theorem ofTokens_alike (h : ts.map Token.kind = ts'.map Token.kind) :
    (∃ s, ofTokens ts = .ok s ∧ ofTokens ts' = .ok s) ∨
      ∃ x t t', ofTokens ts = .error (.misread ⟨x, t⟩) ∧ ofTokens ts' = .error (.misread ⟨x, t'⟩) ∧
        t.kind = t'.kind := by
  have hproper : (proper ts').map Token.kind = (proper ts).map Token.kind := by
    rw [map_kind_proper, map_kind_proper, h]
  cases hw : whole (proper ts) with
  | ok s =>
    have hderives := whole_eq_ok_iff.1 hw
    exact .inl ⟨s, ofTokens_ok_iff_derives.2 hderives,
      ofTokens_ok_iff_derives.2 (hproper.symm ▸ hderives)⟩
  | error stuck =>
    obtain ⟨us, ⟨front, hfront, rfl⟩, hall⟩ := whole_stuck hw
    rw [hfront, List.map_append] at hproper
    obtain ⟨front', rest', hts', hus, hrest⟩ := List.map_eq_append_iff.1 hproper
    have hnext : next rest' = next stuck.rest := by
      rw [next, next, ← List.head?_map, hrest, List.head?_map]
    have hw' := hall _ rest' ⟨front', hts', hus⟩ hnext
    refine .inr ⟨stuck.expected, stuck.rest.headD (ending ts), rest'.headD (ending ts'), ?_, ?_, ?_⟩
    · rw [ofTokens, hw]
    · rw [ofTokens, hw']
    · cases hr : stuck.rest with
      | nil =>
        rw [hr, List.map_nil, List.map_eq_nil_iff] at hrest
        rw [hrest, List.headD_nil, List.headD_nil, kind_ending, kind_ending]
      | cons t rest =>
        rw [hr, List.map_cons] at hrest
        obtain ⟨t', back, rfl, ht', -⟩ := List.map_eq_cons_iff.1 hrest
        exact ht'.symm

/-- However tokens are written out, they are read again; and any two texts of the same tokens
are the same statement, or else stop being one alike. -/
theorem renderings_read_alike {text text' : String} (h : Rendering kinds text.toList)
    (h' : Rendering kinds text'.toList) :
    (scan text).map Token.kind = kinds ++ [.endOfInput] ∧
      ((∃ s, parse text = .ok s ∧ parse text' = .ok s) ∨
        ∃ x t t', parse text = .error (.misread ⟨x, t⟩) ∧
          parse text' = .error (.misread ⟨x, t'⟩) ∧ t.kind = t'.kind) := by
  have hscan := Token.scan_of_rendering h
  exact ⟨hscan, ofTokens_alike (hscan.trans (Token.scan_of_rendering h').symm)⟩

theorem renderings_read_alike_query :
    let kinds : List Token.Kind := [.keyword .select, .star, .keyword .from,
      .identifier "from.x1", .keyword .where, .identifier "_", .equal, .text "or\n= (*,"]
    let text := "select * from from.x1 where _ = 'or\n= (*,'"
    let text' := "\n SeLecT\t*\u00a0FROM\u3000from.x1\n\nwHERE _ =\n'or\n= (*,' "
    Rendering kinds text.toList ∧ Rendering kinds text'.toList ∧
      (scan text).map Token.kind = kinds ++ [.endOfInput] ∧
      ((∃ s, parse text = .ok s ∧ parse text' = .ok s) ∨
        ∃ x t t', parse text = .error (.misread ⟨x, t⟩) ∧
          parse text' = .error (.misread ⟨x, t'⟩) ∧ t.kind = t'.kind) := by
  intro kinds text text'
  have hname : Token.Spelling (.identifier "from.x1") "from.x1".toList :=
    .identifier (by decide) (List.all_eq_true.1 (by decide))
      ((Keyword.ofWord?_eq_none_iff (w := "from.x1")).1 (by decide))
  have hcolumn : Token.Spelling (.identifier "_") "_".toList :=
    .identifier (by decide) (List.all_eq_true.1 (by decide))
      ((Keyword.ofWord?_eq_none_iff (w := "_")).1 (by decide))
  have hvalue : Token.Spelling (.text "or\n= (*,") "'or\n= (*,'".toList := .text (by decide)
  have hsplit : text.toList = ("".toList ++ "select".toList ++ (" ".toList ++ "*".toList ++
      (" ".toList ++ "from".toList ++ (" ".toList ++ "from.x1".toList ++ (" ".toList ++
      "where".toList ++ (" ".toList ++ "_".toList ++ (" ".toList ++ "=".toList ++
      (" ".toList ++ "'or\n= (*,'".toList ++ "".toList)))))))) := by decide
  have h : Rendering kinds text.toList := by
    rw [hsplit]
    refine .cons (by decide) (.keyword rfl) ?_ (by decide)
    refine .cons (by decide) .star ?_ (by decide)
    refine .cons (by decide) (.keyword rfl) ?_ (by decide)
    refine .cons (by decide) hname ?_ (by decide)
    refine .cons (by decide) (.keyword rfl) ?_ (by decide)
    refine .cons (by decide) hcolumn ?_ (by decide)
    refine .cons (by decide) .equal ?_ (by decide)
    exact .cons (by decide) hvalue (.nil (by decide)) (by decide)
  have hsplit' : text'.toList = ("\n ".toList ++ "SeLecT".toList ++ ("\t".toList ++ "*".toList ++
      ("\u00a0".toList ++ "FROM".toList ++ ("\u3000".toList ++ "from.x1".toList ++
      ("\n\n".toList ++ "wHERE".toList ++ (" ".toList ++ "_".toList ++ (" ".toList ++ "=".toList ++
      ("\n".toList ++ "'or\n= (*,'".toList ++ " ".toList)))))))) := by decide
  have h' : Rendering kinds text'.toList := by
    rw [hsplit']
    refine .cons (by decide) (.keyword rfl) ?_ (by decide)
    refine .cons (by decide) .star ?_ (by decide)
    refine .cons (by decide) (.keyword rfl) ?_ (by decide)
    refine .cons (by decide) hname ?_ (by decide)
    refine .cons (by decide) (.keyword rfl) ?_ (by decide)
    refine .cons (by decide) hcolumn ?_ (by decide)
    refine .cons (by decide) .equal ?_ (by decide)
    exact .cons (by decide) hvalue (.nil (by decide)) (by decide)
  exact ⟨h, h', renderings_read_alike h h'⟩

end Statement
end RelStore
