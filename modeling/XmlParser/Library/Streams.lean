import XmlParser.Library.Computation

/-! Output streams whose sink may fail, and programs that put a text into them
piece by piece. A stream writes pieces as they are, without a field width, and reports
a failure by its state only, never by an exception. -/

set_option autoImplicit false

namespace XmlParser.Streams

open XmlParser.Computation Comp

/-- What the sink has taken, whether the stream is still good, and how the sink
answers a piece behind what it has taken: with nothing if it takes all of it, or
with how much it takes before it fails. -/
structure OutputStream (β : Type) where
  written : List β := []
  good : Bool := true
  fails : List β → List β → Option Nat := fun _ _ => none

variable {α β γ ε : Type}

namespace OutputStream

/-- A stream that is not good takes nothing. -/
def put (stream : OutputStream β) (piece : List β) : OutputStream β :=
  if stream.good then
    match stream.fails stream.written piece with
    | none => { stream with written := stream.written ++ piece }
    | some count => { stream with written := stream.written ++ piece.take count, good := false }
  else stream

def putAll (stream : OutputStream β) (pieces : List (List β)) : OutputStream β := pieces.foldl put stream

/-- A text has been put into the stream: all of it has been taken, or the stream
is no longer good and a part in front has been. -/
structure Takes (before after : OutputStream β) (text : List β) : Prop where
  fails : after.fails = before.fails
  spoilt : before.good = false → after = before
  taken : ∃ front, front <+: text ∧ after.written = before.written ++ front ∧
    (after.good = true → before.good = true ∧ front = text)

theorem takes_refl (stream : OutputStream β) : Takes stream stream [] :=
  ⟨rfl, fun _ => rfl, [], List.nil_prefix, (List.append_nil _).symm, fun good => ⟨good, rfl⟩⟩

theorem Takes.trans {first second third : OutputStream β} {text rest : List β} (one : Takes first second text)
    (other : Takes second third rest) : Takes first third (text ++ rest) := by
  obtain ⟨front, isFront, written, whole⟩ := one.taken
  refine ⟨other.fails.trans one.fails, fun spoilt => ?_, ?_⟩
  · have same := one.spoilt spoilt
    rw [other.spoilt (same ▸ spoilt), same]
  · cases good : second.good with
    | false =>
        have same := other.spoilt good
        refine ⟨front, isFront.trans (List.prefix_append text rest), same ▸ written, fun again => ?_⟩
        rw [same, good] at again
        cases again
    | true =>
        obtain ⟨stillGood, rfl⟩ := whole good
        obtain ⟨behind, isBehind, more, wholeRest⟩ := other.taken
        refine ⟨front ++ behind, (List.prefix_append_right_inj front).mpr isBehind, ?_, fun again => ?_⟩
        · rw [more, written, List.append_assoc]
        · rw [(wholeRest again).2]
          exact ⟨stillGood, rfl⟩

theorem takes_put (stream : OutputStream β) (piece : List β) : Takes stream (stream.put piece) piece := by
  unfold put
  cases good : stream.good with
  | false => exact ⟨rfl, fun _ => rfl, [], List.nil_prefix, by simp, fun again => by simp [good] at again⟩
  | true =>
      rw [if_pos rfl]
      cases answer : stream.fails stream.written piece with
      | none => exact ⟨rfl, by simp [good], piece, List.prefix_rfl, rfl, fun _ => ⟨good, rfl⟩⟩
      | some count =>
          refine ⟨rfl, by simp [good], piece.take count, List.take_prefix count piece, rfl, fun again => ?_⟩
          cases again

theorem takes_putAll (stream : OutputStream β) (pieces : List (List β)) :
    Takes stream (stream.putAll pieces) pieces.flatten := by
  induction pieces generalizing stream with
  | nil => exact takes_refl stream
  | cons piece pieces ih => exact (takes_put stream piece).trans (ih (stream.put piece))

/-- A sink that never fails takes everything. -/
theorem putAll_of_faultless (pieces : List (List β)) (written : List β) :
    (OutputStream.mk written true fun _ _ => none).putAll pieces =
      .mk (written ++ pieces.flatten) true fun _ _ => none := by
  induction pieces generalizing written with
  | nil => simp [putAll]
  | cons piece pieces ih =>
      have rest := ih (written ++ piece)
      rw [List.append_assoc] at rest
      exact rest

end OutputStream

/-- The program puts a text into the stream, in pieces that do not depend on how
the stream takes them, and returns a value. -/
def Writes (source : Comp (OutputStream β) ε α) (text : List β) (value : α) : Prop :=
  ∃ pieces : List (List β), pieces.flatten = text ∧
    ∀ stream, source.run stream = (.ok value, stream.putAll pieces)

theorem writes_pure (value : α) : Writes (pure value : Comp (OutputStream β) ε α) [] value := ⟨[], rfl, fun _ => rfl⟩

theorem writes_putAll (pieces : List (List β)) :
    Writes (modify fun stream : OutputStream β => stream.putAll pieces : Comp (OutputStream β) ε Unit)
      pieces.flatten () :=
  ⟨pieces, rfl, fun _ => rfl⟩

theorem writes_bind {source : Comp (OutputStream β) ε α} {continuation : α → Comp (OutputStream β) ε γ}
    {text rest : List β} {value : α} {result : γ} (first : Writes source text value)
    (second : Writes (continuation value) rest result) :
    Writes (source >>= continuation) (text ++ rest) result := by
  obtain ⟨pieces, isText, ran⟩ := first
  obtain ⟨more, isRest, ranOn⟩ := second
  refine ⟨pieces ++ more, by rw [List.flatten_append, isText, isRest], fun stream => ?_⟩
  rw [run_bind_of_ok (ran stream), ranOn]
  unfold OutputStream.putAll
  rw [List.foldl_append]

theorem Writes.of_eq {source : Comp (OutputStream β) ε α} {text other : List β} {value : α}
    (writes : Writes source text value) (same : text = other) : Writes source other value := same ▸ writes

theorem Writes.takes {source : Comp (OutputStream β) ε α} {text : List β} {value : α}
    (writes : Writes source text value) (stream : OutputStream β) :
    ∃ after, source.run stream = (.ok value, after) ∧ OutputStream.Takes stream after text := by
  obtain ⟨pieces, rfl, ran⟩ := writes
  exact ⟨_, ran stream, OutputStream.takes_putAll stream pieces⟩

theorem Writes.run_faultless {source : Comp (OutputStream β) ε α} {text : List β} {value : α}
    (writes : Writes source text value) (written : List β) :
    source.run ⟨written, true, fun _ _ => none⟩ = (.ok value, ⟨written ++ text, true, fun _ _ => none⟩) := by
  obtain ⟨pieces, rfl, ran⟩ := writes
  rw [ran, OutputStream.putAll_of_faultless]

end XmlParser.Streams
