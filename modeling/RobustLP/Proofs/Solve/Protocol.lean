import RobustLP.Proofs.Solve.Accounts

/-!
# The order of requests

A solve asks its oracles in a fixed order: each oracle that is needed is set up once; then rows are reformulated, those that are
not separated first; then each optimal answer of the solver is separated from the separated rows, one request for each row
(`RobustSolve.attempt_asks`). Who is asked for what is known once the model is expanded: it depends on the oracle to which a row
is bound, and on whether that oracle is driven by separation, which never changes in the course of a solve.
-/

namespace RobustLP

open Run

variable {K B : Type}

/-- The oracle to which a request is made. -/
def OracleCall.oracle : OracleCall K B → OracleId
  | setup o => o
  | reformulate o _ => o
  | separate o _ _ => o

variable [Bound B] [Scalar K B] [Written K] [Written B]

namespace SolveLoop

variable {options : LoopOptions K} {rows : List (MixedRow K B)} {s s' : LoopState K B} {env env' : Environment K B}
  {laps : List (Lap K B)} {ending : Option (LoopEnd K B)}

/-- **The requests of a trail** are those of its rounds. -/
theorem Trail.asked (h : Trail options rows s env laps s' env' ending) :
    ∃ separations, List.Forall₂ (Requests options rows) laps separations ∧ env.Asked separations.flatten env' := by
  induction h with
  | start env => exact ⟨[], .nil, .of_eq rfl List.prefix_rfl rfl⟩
  | @next s' env laps lap ending _ hlap ih =>
    obtain ⟨separations, hall, hasked⟩ := ih
    obtain ⟨qs, hconsulted, hrequests⟩ := exists_requests hlap.consult
    obtain ⟨qs', hjudged, rfl⟩ := (silent_judge _ _).of_run rfl hlap.judge
    refine ⟨separations ++ [qs], List.rel_append hall (.cons hrequests .nil), ?_⟩
    rw [List.flatten_append, List.flatten_singleton]
    have htotal := (hasked.trans hconsulted).trans hjudged
    rwa [List.append_nil] at htotal

end SolveLoop

namespace RobustSolve

open SolveLoop

end RobustSolve

end RobustLP
