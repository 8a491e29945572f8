import RelStore.Proofs.Statement.Parse
import RelStore.Token.Scan

/-! The names in a statement that was read from a text are words of the text. -/
namespace RelStore
namespace Token
variable {name : String} {p q : Position} {cs : List Char}

theorem ofWord_eq_identifier {w : String} (h : Kind.ofWord w = .identifier name) : w = name := by
  unfold Kind.ofWord at h
  split at h
  · cases h
  · exact Kind.identifier.inj h

theorem ofMark_ne_identifier {c : Char} : Kind.ofMark c ≠ .identifier name := by
  unfold Kind.ofMark
  repeat' split
  all_goals nofun

theorem isWordPart_of_lexeme {c : Char} (h : (lexeme c cs).kind = .identifier name) :
    ∀ d ∈ name.toList, isWordPart d = true := by
  unfold lexeme at h
  split at h
  · cases h
  · split at h
    · cases h
    · split at h
      · rename_i hstart
        dsimp only at h
        obtain rfl := ofWord_eq_identifier h
        intro d hd
        rw [String.toList_ofList] at hd
        rcases List.mem_cons.1 hd with rfl | hd
        · rw [isWordPart, hstart, Bool.true_or]
        · exact List.all_eq_true.1 List.all_takeWhile d hd
      · exact absurd h ofMark_ne_identifier

/-- A name is made of the letters A to Z, digits, underscores and dots. -/
theorem isWordPart_of_scanFrom (h : ⟨.identifier name, p⟩ ∈ scanFrom q cs) :
    ∀ d ∈ name.toList, isWordPart d = true := by
  induction q, cs using scanFrom.induct with
  | case1 q =>
    unfold scanFrom at h
    cases List.mem_singleton.1 h
  | case2 q c cs hc ih =>
    unfold scanFrom at h
    rw [if_pos hc] at h
    exact ih h
  | case3 q c cs hc ih =>
    unfold scanFrom at h
    rw [if_neg hc] at h
    rcases List.mem_cons.1 h with h | h
    · exact isWordPart_of_lexeme (congrArg Token.kind h).symm
    · exact ih h

end Token

namespace Statement
open Grammar

/-- The table that a statement is about; for a query, the first one. -/
def table : Statement → String
  | .select q => q.table
  | .insert name _ => name
  | .update name _ _ => name
  | .delete name _ => name
  | .create name _ _ => name

theorem table_mem_of_derives {s : Statement} {us : List Token.Kind} (h : Derives s us) :
    .identifier s.table ∈ us := by
  cases h with
  | select => simp [table]
  | insert => simp [table]
  | update => simp [table]
  | delete => simp [table]
  | create => simp [table]

theorem isWordPart_of_parse {text : String} {s : Statement} (h : parse text = .ok s) :
    ∀ d ∈ s.table.toList, Token.isWordPart d = true := by
  have hmem := table_mem_of_derives (ofTokens_ok_iff_derives.1 h)
  obtain ⟨⟨kind, p⟩, htoken, rfl⟩ := List.mem_map.1 hmem
  exact Token.isWordPart_of_scanFrom ((List.takeWhile_sublist _).subset htoken)

end Statement
end RelStore
