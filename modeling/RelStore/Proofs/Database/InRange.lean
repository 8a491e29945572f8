import RelStore.Proofs.Database.Requests
import RelStore.Proofs.Statement.Cursor

/-! No request to a database reads beyond the end of a list, whatever was asked before and
whatever its files hold. -/
namespace RelStore
namespace Database

/-- After any requests, to a database whose files may be changed by others in between, no
request fails with a fault: every position that is read in a row, in the columns of a schema
or among the tokens of a text exists. The rows of every plan have a cell for each column of
the plan, whenever and with whatever signal it is run. And a reader of statements that goes
by position reads any list of tokens as it is read from the front, so that it never looks for
a token behind the last one. -/
theorem request_inRange (settings : Settings) (disk : Disk) (rs : List Request) :
    (∀ (r : Request) (e : Error),
      (r.action.run.run ((fresh settings disk).afterRequests rs)).1 = .error e →
        e.errorClass ≠ .fault) ∧
    (∀ (s : Statement) (p : Plan) (db' : Database),
      (planOf s).run.run ((fresh settings disk).afterRequests rs) = (.ok p, db') →
        ∀ (signal : Signal) (v v' : Trace) (rows : List Row),
          (p.run signal).run.run v = (.ok rows, v') →
            ∀ row ∈ rows, row.length = p.heading.length) ∧
    ∀ ts : List Token, Statement.atPositions ts = Statement.ofTokens ts ∧
      ∀ e, Statement.atPositions ts = .error e → e.errorClass ≠ .fault := by
  have hdb := registered_afterRequests (registered_fresh settings disk) rs
  refine ⟨fun r e h => ?_, fun s p db' hp signal v v' rows hrun => ?_, fun ts => ?_⟩
  · exact ((safe_request r).of_error hdb (Prod.ext h rfl)).1
  · have hfits : p.Fits := ((safe_planOf s).of_ok hdb hp).1
    have hwide : (p.run signal).Ensures (Plan.HasWidth p.heading.length) Error.InRange :=
      Plan.ensures_run hfits
    have hrows := hwide v
    rw [hrun] at hrows
    exact hrows
  · have hts := Statement.atPositions_eq ts
    exact ⟨hts, (meets_iff.1 (hts ▸ meets_ofTokens ts)).2⟩

/-- Tables of authors and of what they wrote, made and filled before their files are lost. -/
def writing : List Request :=
  [.create "authors" [⟨"id", .int, true, false⟩, ⟨"name", .text, false, false⟩] [],
    .insert "authors" [.int 2, .text "a"],
    .create "posts" [⟨"id", .int, true, false⟩, ⟨"author", .int, false, false⟩]
      [⟨"author", "authors", "id"⟩],
    .insert "posts" [.int 8, .int 2], .replaceFiles .missing]

def joinedQuery : Query :=
  ⟨.all, "posts", some ⟨"authors", "authors.id", "author"⟩, some (.equals "posts.id" (.int 8)),
    none⟩

theorem request_inRange_join :
    ∃ p db', (planOf (.select joinedQuery)).run.run
        ((fresh default .empty).afterRequests writing) = (.ok p, db') ∧
      p.heading.length = 4 ∧ ∀ signal v v' rows, (p.run signal).run.run v = (.ok rows, v') →
        ∀ row ∈ rows, row.length = 4 := by
  obtain ⟨-, hplans, -⟩ := request_inRange default .empty writing
  have hplan : (((planOf (.select joinedQuery)).run.run
      ((fresh default .empty).afterRequests writing)).1.map fun p => p.heading.length) = .ok 4 := by
    decide +kernel
  rcases h : (planOf (.select joinedQuery)).run.run
      ((fresh default .empty).afterRequests writing) with ⟨e | p, db'⟩
  · rw [h] at hplan
    cases hplan
  · rw [h] at hplan
    have hlength : p.heading.length = 4 := Except.ok.inj hplan
    exact ⟨p, db', rfl, hlength, hlength ▸ hplans _ p db' h⟩

end Database
end RelStore
