import IslandScript.Proofs.Logic.Evaluator

/-!
# Loops in their passes

A loop of any kind is looked at in the middle of its run, in one of its passes. `Loop` says what
there is to know of it then: its parts, and how it stands with its bound, its count or its items.
What the loop does from there is `Loop.run`: the pass, and unless the outcome of the pass ends the
loop, `Loop.goOn`, which is the same loop from its next check or item. The main statement is
`Loop.InPass.eq_run`: a loop statement that came to a pass comes to what the loop in that pass comes
to.
-/

namespace IslandScript

open Eval

/-- A loop in one of its passes. The bounded ones know how many more passes their bound leaves, a
counted one how many it has made, and one over items its item and those behind it. -/
inductive Loop where
  | whileLoop (left : Nat) (own : Option Name) (test : Expr Name) (body : Stmt Name)
  | doLoop (left : Nat) (own : Option Name) (body : Stmt Name) (test : Expr Name)
  | counted (left : Nat) (own : Option Name) (limit : Option Float) (made : Float)
      (body : Stmt Name)
  | forLoop (own : Option Name) (p : Pattern Name) (span : Span) (body : Stmt Name) (item : Value)
      (items : List Value)

namespace Loop

variable {ev : Evaluator} {m m' : Interpreter} {loop loop' : Loop} {stmt : Stmt Name}

/-- The label of a loop. -/
def label : Loop → Option Name
  | whileLoop _ own _ _ | doLoop _ own _ _ | counted _ own _ _ _ | forLoop own _ _ _ _ _ => own

/-- The pass a loop is in. -/
def pass (ev : Evaluator) : Loop → Eval Unit
  | whileLoop _ _ _ body | doLoop _ _ body _ | counted _ _ _ _ body => inChild (ev.stmt body)
  | forLoop _ p span body item _ => inChild do
      bindPattern p item .constant false span
      ev.stmt body

/-- The passes of a counted loop that has made some. -/
def countedPasses (ev : Evaluator) (own : Option Name) (limit : Option Float) (body : Stmt Name)
    (left : Nat) (made : Float) : Eval Unit :=
  iterate (fun (passes : Float) => do
    if limit.all (passes < ·) then
      if ← Eval.pass ev own body then return some (passes + 1) else return none
    else return none) left made

/-- What a loop does behind a pass that did not end it: its next check, or its next item, and so
on. -/
def goOn (ev : Evaluator) : Loop → Eval Unit
  | whileLoop left own test body => Eval.whileLoop { ev with passes := left } own test body
  | doLoop left own body test => do
    if ← condition ev test then Eval.doLoop { ev with passes := left } own body test else return ()
  | counted left own limit made body => countedPasses ev own limit body left (made + 1)
  | forLoop own p span body _ items => forItems ev own p span body items

/-- What a loop does from the pass it is in. -/
def run (ev : Evaluator) (loop : Loop) : Eval Unit := do
  if ← afterPass loop.label (← attempt (loop.pass ev)) then loop.goOn ev else return ()

/-! ## From pass to pass -/

/-- A loop statement comes to its first pass. -/
inductive First (ev : Evaluator) : Stmt Name → Interpreter → Loop → Interpreter → Prop
  | whileLoop {span own test body m m' left} (hleft : ev.passes = left + 1)
      (htest : condition ev test m = .done true m') :
      First ev (.whileLoop span own test body) m (.whileLoop left own test body) m'
  | doLoop {span own body test m left} (hleft : ev.passes = left + 1) :
      First ev (.doLoop span own body test) m (.doLoop left own body test) m
  | counted {span own count body m m' left limit} (hleft : ev.passes = left + 1)
      (hlimit : loopLimit ev count m = .done limit m') (hmore : limit.all (0 < ·) = true) :
      First ev (.loop span own count body) m (.counted left own limit 0 body) m'
  | forLoop {span own p iterable body m m₁ m₂ v item items} (hv : ev.expr iterable m = .done v m₁)
      (hitems : spread v iterable.span m₁ = .done (item :: items) m₂) :
      First ev (.forLoop span own p iterable body) m
        (.forLoop own p iterable.span body item items) m₂

/-- A loop comes from behind one pass to the next. -/
inductive Next (ev : Evaluator) : Loop → Interpreter → Loop → Interpreter → Prop
  | whileLoop {own test body m m' left} (htest : condition ev test m = .done true m') :
      Next ev (.whileLoop (left + 1) own test body) m (.whileLoop left own test body) m'
  | doLoop {own body test m m' left} (htest : condition ev test m = .done true m') :
      Next ev (.doLoop (left + 1) own body test) m (.doLoop left own body test) m'
  | counted {own limit made body m left} (hmore : limit.all (made + 1 < ·) = true) :
      Next ev (.counted (left + 1) own limit made body) m
        (.counted left own limit (made + 1) body) m
  | forLoop {own p span body m item item' items} :
      Next ev (.forLoop own p span body item (item' :: items)) m
        (.forLoop own p span body item' items) m

/-- A loop statement comes to one of its passes: to the first, or to the next behind one that did
not end the loop. -/
inductive InPass (ev : Evaluator) (stmt : Stmt Name) (m : Interpreter) :
    Loop → Interpreter → Prop
  | first {loop m₁} (h : First ev stmt m loop m₁) : InPass ev stmt m loop m₁
  | next {loop loop' m₁ m₂ m₃} (h : InPass ev stmt m loop m₁)
      (hpass : (attempt (loop.pass ev) >>= afterPass loop.label) m₁ = .done true m₂)
      (hnext : Next ev loop m₂ loop' m₃) : InPass ev stmt m loop' m₃

/-! ## Loops by their passes -/

/-- A pass in one of the bounded loops, and what the loop does behind it. -/
theorem pass_bind (own : Option Name) (body : Stmt Name) (rest : Eval Unit) :
    (do if ← Eval.pass ev own body then rest else return ()) = (do
      if ← afterPass own (← attempt (inChild (ev.stmt body))) then rest else return ()) := by
  unfold Eval.pass
  rw [bind_assoc]

theorem whileLoop_eq (ev : Evaluator) (own : Option Name) (test : Expr Name) (body : Stmt Name)
    (left : Nat) :
    Eval.whileLoop { ev with passes := left + 1 } own test body = (do
      if ← condition ev test then (whileLoop left own test body).run ev else return ()) := by
  unfold Eval.whileLoop
  rw [iterate_succ, bind_assoc]
  refine bind_congr fun holds => ?_
  cases holds with
  | false => rfl
  | true =>
      refine Eq.trans ?_ (pass_bind own body _)
      refine (bind_assoc _ _ _).trans (bind_congr fun goesOn => ?_)
      cases goesOn <;> rfl

theorem doLoop_eq (ev : Evaluator) (own : Option Name) (body : Stmt Name) (test : Expr Name)
    (left : Nat) :
    Eval.doLoop { ev with passes := left + 1 } own body test =
      (doLoop left own body test).run ev := by
  unfold Eval.doLoop
  rw [iterate_succ]
  refine Eq.trans ?_ (pass_bind own body _)
  refine (bind_assoc _ _ _).trans (bind_congr fun goesOn => ?_)
  cases goesOn with
  | false => rfl
  | true =>
      refine (bind_assoc _ _ _).trans (bind_congr fun holds => ?_)
      cases holds <;> rfl

theorem countedPasses_succ (own : Option Name) (limit : Option Float) (body : Stmt Name)
    (left : Nat) (made : Float) :
    countedPasses ev own limit body (left + 1) made =
      if limit.all (made < ·) then (counted left own limit made body).run ev else return () := by
  unfold countedPasses
  rw [iterate_succ]
  split
  · refine Eq.trans ?_ (pass_bind own body _)
    refine (bind_assoc _ _ _).trans (bind_congr fun goesOn => ?_)
    cases goesOn <;> rfl
  · rfl

/-- A loop statement does from its start what the loop does from its first pass. -/
theorem First.eq_run {loop : Loop} (h : First ev stmt m loop m') :
    stmtStep ev stmt m = loop.run ev m' := by
  cases h with
  | @whileLoop span own test body _ _ left hleft htest =>
      have hloop := whileLoop_eq ev own test body left
      rw [← hleft] at hloop
      exact (congrFun hloop m).trans (bind_done htest)
  | @doLoop span own body test _ left hleft =>
      have hloop := doLoop_eq ev own body test left
      rw [← hleft] at hloop
      exact congrFun hloop m
  | @counted span own count body _ _ left limit hleft hlimit hmore =>
      refine (bind_done hlimit).trans ?_
      show countedPasses ev own limit body ev.passes 0 m' = _
      rw [hleft, countedPasses_succ, if_pos hmore]
  | forLoop hv hitems => exact (bind_done hv).trans (bind_done hitems)

/-- A loop does behind a pass what it does from the next pass. -/
theorem Next.eq_run {loop loop' : Loop} (h : Next ev loop m loop' m') :
    loop.goOn ev m = loop'.run ev m' := by
  cases h with
  | @whileLoop own test body _ _ left htest =>
      exact (congrFun (whileLoop_eq ev own test body left) m).trans (bind_done htest)
  | @doLoop own body test _ _ left htest =>
      exact (bind_done htest).trans (congrFun (doLoop_eq ev own body test left) m')
  | @counted own limit made body _ left hmore =>
      show countedPasses ev own limit body (left + 1) (made + 1) m = _
      rw [countedPasses_succ, if_pos hmore]
  | forLoop => rfl

/-- A loop statement that came to a pass does from its start what the loop does from that pass. -/
theorem InPass.eq_run {loop : Loop} (h : InPass ev stmt m loop m') :
    stmtStep ev stmt m = loop.run ev m' := by
  induction h with
  | first h => exact h.eq_run
  | @next loop loop' m₁ m₂ m₃ _ hpass hnext ih =>
      have hrun : loop.run ev m₁ = loop.goOn ev m₂ := by
        unfold run
        rw [← bind_assoc]
        exact bind_done hpass
      exact ih.trans (hrun.trans hnext.eq_run)

/-! ## Jumps out of a pass -/

variable {label : Option Name} {s : Signal}

theorem targets_iff {own : Option Name} :
    Signal.targets label own = true ↔ label = none ∨ label = own := by
  simp [Signal.targets]

theorem run_raised (h : loop.pass ev m = .raised s m') :
    loop.run ev m =
      (do if ← afterPass loop.label (.error s) then loop.goOn ev else return ()) m' := by
  have hattempt : attempt (loop.pass ev) m = .done (.error s) m' := by
    unfold attempt
    rw [h]
  exact bind_done hattempt

/-- A break to the loop ends it. -/
theorem run_break (h : loop.pass ev m = .raised (.breakLoop label) m')
    (hlabel : label = none ∨ label = loop.label) : loop.run ev m = .done () m' := by
  rw [run_raised h, afterPass, if_pos (targets_iff.mpr hlabel)]
  rfl

/-- A continue to the loop ends the pass, and the loop goes on. -/
theorem run_continue (h : loop.pass ev m = .raised (.continueLoop label) m')
    (hlabel : label = none ∨ label = loop.label) : loop.run ev m = loop.goOn ev m' := by
  rw [run_raised h, afterPass, if_pos (targets_iff.mpr hlabel)]
  rfl

/-- A jump past the loop leaves it, and nothing of the loop is evaluated any more. -/
theorem run_jumpPast (hs : s = .breakLoop label ∨ s = .continueLoop label)
    (h : loop.pass ev m = .raised s m') (hlabel : ¬(label = none ∨ label = loop.label)) :
    loop.run ev m = .raised s m' := by
  rw [run_raised h]
  rcases hs with rfl | rfl
  · rw [afterPass, if_neg (mt targets_iff.mp hlabel)]
    rfl
  · rw [afterPass, if_neg (mt targets_iff.mp hlabel)]
    rfl

end Loop
end IslandScript
