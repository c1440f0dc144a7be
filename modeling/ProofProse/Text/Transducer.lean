/-! # Transducers

A transducer reads a list one item at a time. It keeps a state, writes a few items at each step, and
may write once more when its input ends. The passes over a source text and the lexer are
transducers, so that reading `xs ++ ys` is reading `xs` and going on with `ys` from the state
reached (`output_append`).

* `run`: the whole output, gathered by one tail call per item.
* `output`: the same list, said by recursion on the input. `run_eq_output`: the two agree. -/

namespace ProofProse.Text

/-- A machine that turns items of `α` into items of `β`, with states in `σ`. -/
structure Transducer (σ α β : Type) where
  /-- The state before the first item. -/
  start : σ
  /-- The next state and what is written on one item. -/
  step : σ → α → σ × List β
  /-- What is still written when the input ends. -/
  finish : σ → List β

namespace Transducer

variable {σ α β : Type} (t : Transducer σ α β)

/-- What is written from a state on. -/
def output : σ → List α → List β
  | s, [] => t.finish s
  | s, x :: xs => (t.step s x).2 ++ output (t.step s x).1 xs

/-- The state after some items. -/
def after : σ → List α → σ
  | s, [] => s
  | s, x :: xs => after (t.step s x).1 xs

/-- What is written while some items are read, the end of the input left out. -/
def written : σ → List α → List β
  | _, [] => []
  | s, x :: xs => (t.step s x).2 ++ written (t.step s x).1 xs

/-- Reads on with the output so far, last item first. -/
def feed : σ → List β → List α → List β
  | s, out, [] => out.reverseAux (t.finish s)
  | s, out, x :: xs =>
    let r := t.step s x
    feed r.1 (r.2.reverseAux out) xs

/-- The whole output on an input. -/
def run (xs : List α) : List β := t.feed t.start [] xs

theorem feed_eq : ∀ (xs : List α) (s : σ) (out : List β),
    t.feed s out xs = out.reverse ++ t.output s xs
  | [], s, out => by simp [feed, output, List.reverseAux_eq]
  | x :: xs, s, out => by
    rw [feed, feed_eq xs]
    simp [output, List.reverseAux_eq]

theorem run_eq_output (xs : List α) : t.run xs = t.output t.start xs := by
  simp [run, feed_eq]

theorem output_append : ∀ (xs ys : List α) (s : σ),
    t.output s (xs ++ ys) = t.written s xs ++ t.output (t.after s xs) ys
  | [], _, _ => rfl
  | x :: xs, ys, s => by
    simp [output, written, after, output_append xs ys, List.append_assoc]

theorem after_append : ∀ (xs ys : List α) (s : σ),
    t.after s (xs ++ ys) = t.after (t.after s xs) ys
  | [], _, _ => rfl
  | x :: xs, ys, s => by simp [after, after_append xs ys]

theorem output_eq : ∀ (xs : List α) (s : σ),
    t.output s xs = t.written s xs ++ t.finish (t.after s xs)
  | [], _ => rfl
  | x :: xs, s => by simp [output, written, after, output_eq xs]

end Transducer

end ProofProse.Text
