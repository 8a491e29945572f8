import RelStore.Statement.Parse

/-! Conditions read by precedence. What is right of a connective goes on over connectives that
bind closer than it, and no others; what is read so far becomes the left of the next one. -/
namespace RelStore

namespace Condition.Connective

def precedence : Connective → Nat
  | or => 1
  | and => 2

def join : Connective → Condition → Condition → Condition
  | and, l, r => .and l r
  | or, l, r => .or l r

end Condition.Connective

namespace Statement

/-- Goes on behind the condition `left`, over connectives of at least the precedence `least`.
Each of them takes a token, so that there are no more of them than tokens. -/
def climbFrom : Nat → Nat → Condition → Reader Condition
  | 0, _, left, ts => .ok (left, ts)
  | fuel + 1, least, left, ts =>
    match connective? ts with
    | none => .ok (left, ts)
    | some (op, rest) =>
      if op.precedence < least then .ok (left, ts)
      else do
        let ((column, value), rest) ← equation [] rest
        let (right, rest) ← climbFrom fuel (op.precedence + 1) (.equals column value) rest
        climbFrom fuel least (op.join left right) rest

def expression (least : Nat) : Reader Condition := fun ts => do
  let ((column, value), ts) ← equation [] ts
  climbFrom ts.length least (.equals column value) ts

end Statement
end RelStore
