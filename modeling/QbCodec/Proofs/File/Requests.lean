import QbCodec.Proofs.File.Tiling

namespace QbCodec

namespace Contents

def readWith {m : Type → Type} [Monad m] (ask : Expansion → m (Except Failure (List UInt8)))
    (c : Cursor) : m (Except Failure (List Item)) :=
  if c.isAtEnd then pure (.ok [])
  else
    match h : Item.read c with
    | (.error e, _) => pure (.error e)
    | (.ok i, d) =>
      have := remaining_read h
      match i.expansion? with
      | none => do return (← readWith ask d).map (i :: ·)
      | some x => do
        match ← ask x with
        | .error e => return .error e
        | .ok body => return (← readWith ask d).map (i.withBody body :: ·)
termination_by c.remaining

/-- The items that are met from `a` on, up to the end of the file or to the first that fails to
expand. What cannot be read is no item. -/
inductive Attempts (x : Expander) (o : ByteOrder) (d : List UInt8) : Nat → List Item → Prop
  | done : Attempts x o d d.length []
  | unreadable {a : Nat} {e : Failure} (more : a < d.length) (h : Item.Unreadable o d a e) :
      Attempts x o d a []
  | unexpandable {a b : Nat} {i : Item} {e : Failure} (here : i.At o d a b)
      (h : i.expand x = .error e) : Attempts x o d a [i]
  | item {a b : Nat} {i j : Item} {is : List Item} (here : i.At o d a b)
      (hexpand : i.expand x = .ok j) (rest : Attempts x o d b is) : Attempts x o d a (i :: is)

end Contents

namespace Readable

def ofBytesWith {m : Type → Type} [Monad m] (ask : Expansion → m (Except Failure (List UInt8)))
    (r : Registry) (f : Format) (data : List UInt8) : m (Except Failure String) :=
  if data.length < f.headerSize then pure (.error (.shortHeader f.headerSize data.length))
  else do
    return (← Contents.readWith ask (Cursor.ofBytes data f.order f.headerSize)).map (text r f)

end Readable

def Expander.recording (x : Expander) (e : Expansion) :
    StateM (List Expansion) (Except Failure (List UInt8)) :=
  fun requests => (x e, requests ++ [e])

theorem Expander.run_recording (x : Expander) (e : Expansion) (requests : List Expansion) :
    StateT.run (x.recording e) requests = (x e, requests ++ [e]) := rfl

namespace Contents

variable {x : Expander} {o : ByteOrder} {d : List UInt8} {a : Nat} {c : Cursor}

theorem readWith_recording (c : Cursor) (requests : List Expansion) :
    (readWith x.recording c).run requests =
      ((readAll c).expanded x, requests ++ expansions x (readAll c).items) := by
  fun_induction readAll c generalizing requests with
  | case1 c hend =>
    rw [readWith, if_pos hend, expansions, List.append_nil]
    rfl
  | case2 c hmore e c' hread =>
    rw [readWith, if_neg hmore]
    split
    · rename_i hread'
      rw [hread] at hread'
      cases hread'
      rw [expansions, List.append_nil]
      rfl
    · rename_i hread'
      rw [hread] at hread'
      cases hread'
  | case3 c hmore i c' hread hshorter rest ih =>
    rw [readWith, if_neg hmore, expanded_cons]
    split
    · rename_i hread'
      rw [hread] at hread'
      cases hread'
    · rename_i hread'
      rw [hread] at hread'
      cases hread'
      cases hx : i.expansion? with
      | none =>
        simp only [hx, StateT.run_bind, ih, expansions, Item.expand]
        rfl
      | some e =>
        cases hbody : x e with
        | error f =>
          simp only [hx, StateT.run_bind, Expander.run_recording, hbody, expansions, Item.expand]
          rfl
        | ok body =>
          simp only [hx, StateT.run_bind, Expander.run_recording, hbody, expansions, Item.expand,
            Except.map]
          change StateT.run (readWith x.recording c' >>= fun r =>
            pure (r.map (i.withBody body :: ·))) (requests ++ [e]) = _
          rw [StateT.run_bind, ih, List.append_assoc]
          rfl

theorem expansions_cons {i j : Item} (h : i.expand x = .ok j) (is : List Item) :
    expansions x (i :: is) = i.expansion?.toList ++ expansions x is := by
  rw [expansions]
  cases hx : i.expansion? with
  | none => rfl
  | some e =>
    cases hbody : x e with
    | error f => simp [Item.expand, hx, hbody, Except.map] at h
    | ok body => simp [hbody]

theorem expansions_of_error {i : Item} {e : Failure} (h : i.expand x = .error e)
    (is : List Item) : expansions x (i :: is) = i.expansion?.toList := by
  obtain ⟨y, hy, hfailed⟩ := Item.expansion?_of_expand h
  simp [expansions, hy, hfailed]

theorem filterMap_expansion?_cons (i : Item) (is : List Item) :
    (i :: is).filterMap Item.expansion? =
      i.expansion?.toList ++ is.filterMap Item.expansion? := by
  cases h : i.expansion? <;> simp [h]

theorem exists_attempts (x : Expander) (ha : a ≤ d.length) :
    ∃ is, Attempts x o d a is ∧
      expansions x (readAll (Cursor.ofBytes d o a)).items = is.filterMap Item.expansion? := by
  induction hn : d.length - a using Nat.strongRecOn generalizing a with
  | _ n ih =>
    by_cases hend : a = d.length
    · subst hend
      exact ⟨[], .done, by simp [readAll_end, expansions]⟩
    rcases Item.at_or_unreadable (o := o) (d := d) (a := a) with ⟨i, b, here⟩ | ⟨e, he⟩
    · have hbounds := here.bounds
      rw [readAll_at here]
      cases hx : i.expand x with
      | error e =>
        refine ⟨[i], .unexpandable here hx, ?_⟩
        rw [expansions_of_error hx, filterMap_expansion?_cons, List.filterMap_nil, List.append_nil]
      | ok j =>
        obtain ⟨is, his, hrequests⟩ := ih (d.length - b) (by omega) hbounds.2 rfl
        refine ⟨i :: is, .item here hx his, ?_⟩
        rw [expansions_cons hx, filterMap_expansion?_cons, hrequests]
    · refine ⟨[], .unreadable (by omega) he, ?_⟩
      rw [readAll_unreadable (by omega) he, expansions, List.filterMap_nil]

end Contents

namespace Readable

theorem ofBytesWith_recording (r : Registry) (f : Format) (x : Expander) (d : List UInt8) :
    (ofBytesWith x.recording r f d).run [] = (ofBytes r f x d, expansions f x d) := by
  by_cases h : d.length < f.headerSize
  · simp only [ofBytesWith, ofBytes, expansions, Contents.ofBytes, if_pos h]
    rfl
  · simp only [ofBytesWith, ofBytes, expansions, Contents.ofBytes, if_neg h, StateT.run_bind,
      Contents.readWith_recording]
    rfl

end Readable

end QbCodec
