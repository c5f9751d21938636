import IslandScript.Proofs.Parser.Levels

/-!
# Lists of items

The elements of a list, the arguments of an index and those of a call are items with commas between them
up to a closing token. Whatever an item is, if it is read where nothing goes on with it, then they are
read in order.
-/

namespace IslandScript.Parser

variable {level : Nat} {before after : List Lexeme}

/-! ## Closing tokens and first items -/

/-- The tokens that end a list of items. -/
def Closes (close : Symbol) : Prop := close = .rightBracket ∨ close = .rightParen

/-- No term starts with a token that ends a list. -/
theorem nextKind_ne_close {close : Symbol} (hclose : Closes close) {ls : List Lexeme}
    (h : Term.StartsAt level ls) : nextKind ls ≠ .symbol close := by
  obtain ⟨l, rest, rfl, -, hpos⟩ := h
  intro hkind
  rcases hclose with rfl | rfl <;> cases l <;> cases hkind <;> exact absurd hpos (by decide)

section Items

variable {τ α : Type} {item : Parser String α} {print : τ → List Lexeme} {IsItem : τ → α → Prop}
  {close : Symbol} {x : τ} {xs : List τ}

theorem startsAt_commas (h : Term.StartsAt level (print x)) :
    Term.StartsAt level (Lexeme.commas ((x :: xs).map print)) := by
  cases xs with
  | nil => exact h
  | cons y ys => exact h.append _

theorem length_le_of_mem_commas {items : List (List Lexeme)} {item : List Lexeme}
    (h : item ∈ items) : item.length ≤ (Lexeme.commas items).length := by
  induction items with
  | nil => cases h
  | cons first rest ih =>
      cases rest with
      | nil =>
          cases List.mem_singleton.mp h
          exact Nat.le_refl _
      | cons second rest =>
          rw [Lexeme.commas, List.length_append, List.length_cons]
          rcases List.mem_cons.mp h with rfl | h
          · omega
          · have := ih h
            omega
          · exact fun h => nomatch h

theorem length_le_of_mem {n : Nat} {last : List Lexeme} (hx : x ∈ xs)
    (hlength : (Lexeme.commas (xs.map print) ++ last).length ≤ n) : (print x).length ≤ n := by
  refine Nat.le_trans (length_le_of_mem_commas (List.mem_map_of_mem hx)) ?_
  exact Nat.le_trans (List.length_append.symm ▸ Nat.le_add_right _ _) hlength

/-! ## Items -/

/-- Items are read one after the other, those that were read being kept in reverse. -/
theorem reads_commaLoop {todo done : List τ} (hne : todo ≠ [])
    (hafter : nextKind after ≠ .symbol .comma) (hstops : Stops 0 (nextKind after))
    (hitem : ∀ x ∈ todo, ∀ more, Stops 0 (nextKind more) →
      Reads item (print x ++ more) more (IsItem x))
    (h : Grows (pure []) (commaRound item) before (Lexeme.commas (todo.map print) ++ after)
      fun found => List.Forall₂ IsItem done found.reverse) :
    Reads (loop (commaRound item) []) before after
      fun found => List.Forall₂ IsItem (done ++ todo) found.reverse := by
  have hsnoc {x : τ} {a : α} {done : List τ} {found : List α}
      (hfound : List.Forall₂ IsItem done found.reverse) (ha : IsItem x a) :
      List.Forall₂ IsItem (done ++ [x]) (a :: found).reverse := by
    rw [List.reverse_cons]
    exact List.rel_append hfound (.cons ha .nil)
  induction todo generalizing done with
  | nil => exact absurd rfl hne
  | cons x todo ih =>
      have hx := hitem x List.mem_cons_self
      cases todo with
      | nil =>
          -- No comma follows the last item, so its round is the last one.
          rw [loop_eq]
          refine h.done fun found hfound => (hx after hstops).bind fun a ha => ?_
          refine (reads_eatLine_of_ne hafter).bind fun b hb => ?_
          rw [hb]
          exact reads_pure ⟨_, rfl, hsnoc hfound ha⟩
      | cons y todo =>
          rw [List.append_cons]
          refine ih (List.cons_ne_nil y todo) (fun z hz => hitem z (List.mem_cons_of_mem x hz)) ?_
          refine h.again ?_ fun found hfound => ?_
          · simp only [List.map_cons, Lexeme.commas, List.length_append, List.length_cons]
            omega
          · simp only [List.map_cons, Lexeme.commas, List.append_assoc, List.cons_append]
            refine (hx _ (stops_of_continues?_eq_none rfl)).bind fun a ha => ?_
            refine reads_eatLine.bind fun b hb => ?_
            rw [hb]
            exact reads_pure ⟨_, rfl, hsnoc hfound ha⟩

/-- Items are read in order up to the token that ends their list. -/
theorem reads_items (hclose : Closes close)
    (hitem : ∀ y ∈ x :: xs, ∀ more, Stops 0 (nextKind more) →
      Reads item (print y ++ more) more (IsItem y)) :
    Reads (commaList item) (Lexeme.commas ((x :: xs).map print) ++ .symbol close :: after)
      (.symbol close :: after) (List.Forall₂ IsItem (x :: xs)) := by
  have hcomma : nextKind (.symbol close :: after) ≠ .symbol .comma := by
    rcases hclose with rfl | rfl <;> exact fun h => nomatch h
  have hstops : Stops 0 (nextKind (.symbol close :: after)) := by
    rcases hclose with rfl | rfl <;> exact stops_of_continues?_eq_none rfl
  have hstart : Grows (pure []) (commaRound item)
      (Lexeme.commas ((x :: xs).map print) ++ .symbol close :: after)
      (Lexeme.commas ((x :: xs).map print) ++ .symbol close :: after)
      fun found => List.Forall₂ IsItem [] found.reverse := (reads_pure .nil).grows
  have hall := reads_commaLoop (List.cons_ne_nil x xs) hcomma hstops hitem hstart
  exact hall.bind fun _ h => reads_pure h

end Items

/-- Lists whose members correspond one by one have the same images. -/
theorem map_eq_map_of_forall₂ {τ α γ : Type} {f : α → γ} {f' : τ → γ} {xs : List τ} {found : List α}
    (h : List.Forall₂ (fun x a => f a = f' x) xs found) : found.map f = xs.map f' := by
  induction h with
  | nil => rfl
  | cons ha _ ih => rw [List.map_cons, List.map_cons, ha, ih]

/-! ## Arguments -/

/-- An argument is the tree of one but for its spans. -/
def IsArg (a : Arg String (Expr String)) (found : Arg String (Expr String)) : Prop :=
  found.mapSpans (fun _ => Span.none) = a

/-- Arguments are read up to the closing bracket. -/
theorem reads_args {τ : Type} {arg : Parser String (Arg String (Expr String))} {close : Symbol}
    {xs : List τ} {print : τ → List Lexeme} {toArg : τ → Arg String (Expr String)}
    (hclose : Closes close) (hstart : ∀ x ∈ xs, Term.StartsAt 0 (print x))
    (harg : ∀ x ∈ xs, ∀ more, Stops 0 (nextKind more) →
      Reads arg (print x ++ more) more (IsArg (toArg x))) :
    Reads (args arg close) (Lexeme.commas (xs.map print) ++ [.symbol close] ++ after) after
      fun found => Args.mapSpans (fun _ => Span.none) found = xs.map toArg := by
  rw [List.append_assoc, List.singleton_append]
  refine reads_skipLineEnds.bind fun _ _ => ?_
  cases xs with
  | nil =>
      refine reads_eat.bind fun b hb => ?_
      rw [hb]
      exact reads_pure rfl
  | cons x xs =>
      have hfirst := (@startsAt_commas 0 τ print x xs (hstart x List.mem_cons_self)).append
        (.symbol close :: after)
      refine (reads_eat_of_ne (nextKind_ne_close hclose hfirst)).bind fun b hb => ?_
      rw [hb]
      refine (reads_items hclose harg).bind fun found hfound => reads_skipLineEnds.bind fun _ _ => ?_
      refine reads_expect.bind fun _ _ => reads_pure ?_
      rw [Args.mapSpans_eq_map]
      exact map_eq_map_of_forall₂ hfound

end IslandScript.Parser
