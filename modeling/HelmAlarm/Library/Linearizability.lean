import HelmAlarm.Library.Machine
import HelmAlarm.Library.Pool
import Mathlib.Data.List.Nodup
import Mathlib.Data.Sum.Basic

/-!
# Linearizability

Operations on a shared object take time: each is invoked, and may be answered later. What an
observer sees is the history of these events. It is linearizable when the operations can be put in
one order in which the object, used by one party alone, may give every answer that was seen, and in
which an operation answered before another was invoked comes before it. What the object may answer can
depend on which operation it is, `LinearizableBy`: on what was around it while it was in progress.

The rule for showing it names the step at which each operation takes effect: `Moves` is what a step
of a machine may do to the operations and to the object, and `linearizableBy_of_moves` the induction
over a run. Operations that only look at the object can be put beside any machine, `withReaders`,
and linearize with the others, `linearizableBy_withReaders` and `linearizable_withReaders`.
-/

namespace HelmAlarm.Library.Linearizability

universe u v w x

variable {σ : Type u} {ι : Type v} {O : Type w} {R : Type x}

/-- What is seen of operation `i`. -/
inductive Event (ι : Type v) (O : Type w) (R : Type x) where
  /-- It is invoked. -/
  | invoke (i : ι) (op : O)
  /-- It is answered. -/
  | respond (i : ι) (answer : R)
  deriving DecidableEq, Repr

/-- The operation it is about. -/
def Event.id : Event ι O R → ι
  | .invoke i _ => i
  | .respond i _ => i

/-- The operation that an event invokes. -/
def Event.invoked : Event ι O R → Option ι
  | .invoke i _ => some i
  | .respond _ _ => none

/-- The operation that an event answers. -/
def Event.answered : Event ι O R → Option ι
  | .invoke _ _ => none
  | .respond i _ => some i

/-- The object that does one thing: `f` says what an operation does to it, and what it answers. -/
def exactly (f : σ → O → σ × R) (s : σ) (op : O) (t : σ) (r : R) : Prop := f s op = (t, r)

/-- An operation and its answer. -/
structure Done (ι : Type v) (O : Type w) (R : Type x) where
  /-- Which one it is. -/
  id : ι
  /-- What it asks. -/
  op : O
  /-- What it is answered. -/
  answer : R
  deriving DecidableEq, Repr

/-- The object used by one party alone, from `s₀` to `s`: `spec` says what each operation may do to it,
and answer. -/
inductive Legal (spec : ι → σ → O → σ → R → Prop) (s₀ : σ) : List (Done ι O R) → σ → Prop where
  /-- Nothing is done. -/
  | nil : Legal spec s₀ [] s₀
  /-- An operation is done after the others. -/
  | snoc {order : List (Done ι O R)} {s t : σ} {d : Done ι O R} :
      Legal spec s₀ order s → spec d.id s d.op t d.answer → Legal spec s₀ (order ++ [d]) t

/-- The operations in `order` account for the history `h` of an object that was `s₀` and is `s`. -/
structure Linearizes (spec : ι → σ → O → σ → R → Prop) (s₀ : σ) (h : List (Event ι O R)) (order : List (Done ι O R))
    (s : σ) : Prop where
  /-- One after the other, they may be answered so by the object. -/
  legal : Legal spec s₀ order s
  /-- Each is done once. -/
  once : (order.map Done.id).Nodup
  /-- Only invoked operations are done. -/
  invoked : ∀ d ∈ order, .invoke d.id d.op ∈ h
  /-- An operation that was answered is done, with the answer seen. -/
  complete : ∀ i r, .respond i r ∈ h → ∃ op, ⟨i, op, r⟩ ∈ order
  /-- An operation that was answered before another was invoked is done before it. -/
  realTime : ∀ d ∈ order, ∀ e ∈ order,
    List.Sublist [.respond d.id d.answer, .invoke e.id e.op] h → List.Sublist [d, e] order
  /-- An operation is invoked once. -/
  invokedOnce : (h.filterMap Event.invoked).Nodup
  /-- An operation is answered at most once. -/
  answeredOnce : (h.filterMap Event.answered).Nodup

/-- A history of an object that was `s₀` at the start: some order of its operations accounts for it. -/
def LinearizableBy (spec : ι → σ → O → σ → R → Prop) (s₀ : σ) (h : List (Event ι O R)) : Prop :=
  ∃ order s, Linearizes spec s₀ h order s

/-- The same, when what the object does is not a matter of which operation it is. -/
def Linearizable (spec : σ → O → σ → R → Prop) (s₀ : σ) (h : List (Event ι O R)) : Prop :=
  LinearizableBy (fun _ => spec) s₀ h

/-! ### Where the operations stand -/

/-- Where an operation stands. -/
inductive Standing (O : Type w) (R : Type x) where
  /-- Invoked, and without effect so far. -/
  | pending (op : O)
  /-- It took effect, and its answer is to be given. -/
  | decided (op : O) (answer : R)
  /-- Answered. -/
  | answered

/-- What the history and the order so far say of an operation that stands there, or, for `none`, was
not invoked yet. -/
def Stands (h : List (Event ι O R)) (order : List (Done ι O R)) (i : ι) : Option (Standing O R) → Prop
  | none => i ∉ h.filterMap Event.invoked
  | some (.pending op) => .invoke i op ∈ h ∧ i ∉ order.map Done.id
  | some (.decided op r) => ⟨i, op, r⟩ ∈ order ∧ i ∉ h.filterMap Event.answered
  | some .answered => True

/-- What a step does: `f` says where the operations stand, `x` is the object, and the list what is
seen. -/
inductive Moves [DecidableEq ι] (spec : ι → σ → O → σ → R → Prop) :
    (ι → Option (Standing O R)) → σ → List (Event ι O R) → (ι → Option (Standing O R)) → σ → Prop where
  /-- Nothing that concerns the object. -/
  | skip {f : ι → Option (Standing O R)} {x : σ} : Moves spec f x [] f x
  /-- An operation is invoked. -/
  | invoke {f : ι → Option (Standing O R)} {x : σ} {i : ι} {op : O} (hi : f i = none) :
      Moves spec f x [.invoke i op] (Function.update f i (some (.pending op))) x
  /-- An operation takes effect. -/
  | point {f : ι → Option (Standing O R)} {x y : σ} {i : ι} {op : O} {r : R} (hi : f i = some (.pending op))
      (hspec : spec i x op y r) : Moves spec f x [] (Function.update f i (some (.decided op r))) y
  /-- An operation is answered. -/
  | respond {f : ι → Option (Standing O R)} {x : σ} {i : ι} {op : O} {r : R} (hi : f i = some (.decided op r)) :
      Moves spec f x [.respond i r] (Function.update f i (some .answered)) x
  /-- One after the other. -/
  | trans {f g k : ι → Option (Standing O R)} {x y z : σ} {es es' : List (Event ι O R)} :
      Moves spec f x es g y → Moves spec g y es' k z → Moves spec f x (es ++ es') k z

variable {spec : ι → σ → O → σ → R → Prop} {s₀ s t x : σ} {h es : List (Event ι O R)} {order ds : List (Done ι O R)}
  {i : ι} {op : O} {r : R}

theorem mem_invoked (hm : .invoke i op ∈ h) : i ∈ h.filterMap Event.invoked :=
  List.mem_filterMap.mpr ⟨_, hm, rfl⟩

/-- What is said of an operation stays so when others are invoked, done and answered. -/
theorem Stands.frame {st : Option (Standing O R)} (hst : Stands h order i st)
    (hes : ∀ e ∈ es, e.id ≠ i) (hds : ∀ d ∈ ds, d.id ≠ i) : Stands (h ++ es) (order ++ ds) i st := by
  have hinv : i ∉ es.filterMap Event.invoked := by
    intro hm
    obtain ⟨e, he, hi⟩ := List.mem_filterMap.mp hm
    cases e with
    | invoke j op => exact hes _ he (Option.some.inj hi)
    | respond j r => cases hi
  have hans : i ∉ es.filterMap Event.answered := by
    intro hm
    obtain ⟨e, he, hi⟩ := List.mem_filterMap.mp hm
    cases e with
    | invoke j op => cases hi
    | respond j r => exact hes _ he (Option.some.inj hi)
  have hdone : i ∉ ds.map Done.id := by
    intro hm
    obtain ⟨d, hd, hi⟩ := List.mem_map.mp hm
    exact hds d hd hi
  match st with
  | none =>
    simp only [Stands, List.filterMap_append, List.mem_append, not_or] at hst ⊢
    exact ⟨hst, hinv⟩
  | some (.pending op) =>
    simp only [Stands, List.map_append, List.mem_append, not_or] at hst ⊢
    exact ⟨.inl hst.1, hst.2, hdone⟩
  | some (.decided op r) =>
    simp only [Stands, List.filterMap_append, List.mem_append, not_or] at hst ⊢
    exact ⟨.inl hst.1, hst.2, hans⟩
  | some .answered => trivial

/-- An operation takes effect, and is answered at once. -/
theorem Moves.point_respond [DecidableEq ι] {f : ι → Option (Standing O R)} (hi : f i = some (.pending op))
    (hspec : spec i s op t r) : Moves spec f s [.respond i r] (Function.update f i (some .answered)) t := by
  have hdecided : Function.update f i (some (.decided op r)) i = some (.decided op r) := Function.update_self ..
  have hmoves := (Moves.point hi hspec).trans (.respond hdecided)
  rwa [Function.update_idem] at hmoves

/-- What is said of every operation stays so when one of them moves on. -/
theorem forall_stands_update [DecidableEq ι] {f : ι → Option (Standing O R)} {st : Option (Standing O R)}
    (hst : ∀ j, Stands h order j (f j))
    (hes : ∀ e ∈ es, e.id = i) (hds : ∀ d ∈ ds, d.id = i) (hi : Stands (h ++ es) (order ++ ds) i st) (j : ι) :
    Stands (h ++ es) (order ++ ds) j (Function.update f i st j) := by
  by_cases hj : j = i
  · subst hj
    rw [Function.update_self]
    exact hi
  · rw [Function.update_of_ne hj]
    exact (hst j).frame (fun e he => hes e he ▸ Ne.symm hj) (fun d hd => hds d hd ▸ Ne.symm hj)

/-- Of two events of a history that grew by one, both were there, or the second is the new one. -/
theorem sublist_snoc {α : Type*} {l : List α} {a b c : α} (hsub : List.Sublist [a, b] (l ++ [c])) :
    List.Sublist [a, b] l ∨ b = c ∧ a ∈ l := by
  obtain ⟨l₁, l₂, heq, h₁, h₂⟩ := List.sublist_append_iff.mp hsub
  rcases List.sublist_singleton.mp h₂ with rfl | rfl
  · rw [List.append_nil] at heq
    exact .inl (heq ▸ h₁)
  · obtain ⟨rfl, hb⟩ := List.append_inj' (show [a] ++ [b] = l₁ ++ [c] from heq) rfl
    exact .inr ⟨by simpa using hb, List.singleton_sublist.mp h₁⟩

/-- The last operation is done after the others. -/
theorem legal_snoc {d : Done ι O R} :
    Legal spec s₀ (order ++ [d]) t ↔ ∃ s, Legal spec s₀ order s ∧ spec d.id s d.op t d.answer := by
  constructor
  · intro h
    generalize horder : order ++ [d] = order' at h
    cases h with
    | nil => simp at horder
    | snoc hlegal hspec =>
      obtain ⟨rfl, hd⟩ := List.append_inj' horder rfl
      obtain rfl := List.singleton_inj.mp hd
      exact ⟨_, hlegal, hspec⟩
  · intro h
    obtain ⟨s, hlegal, hspec⟩ := h
    exact .snoc hlegal hspec

/-- The empty history. -/
theorem Linearizes.nil : Linearizes spec s₀ [] [] s₀ where
  legal := .nil
  once := List.nodup_nil
  invoked := by simp
  complete := by simp
  realTime := by simp
  invokedOnce := List.nodup_nil
  answeredOnce := List.nodup_nil

/-- An operation is invoked that was not before. -/
theorem Linearizes.invoke (hl : Linearizes spec s₀ h order s) (hi : i ∉ h.filterMap Event.invoked) :
    Linearizes spec s₀ (h ++ [.invoke i op]) order s where
  legal := hl.legal
  once := hl.once
  invoked := fun d hd => List.mem_append_left _ (hl.invoked d hd)
  complete := by
    intro j r hj
    rcases List.mem_append.mp hj with hj | hj
    · exact hl.complete j r hj
    · simp at hj
  realTime := by
    intro d hd e he hsub
    refine hl.realTime d hd e he ?_
    rcases sublist_snoc hsub with hsub | ⟨hlast, -⟩
    · exact hsub
    · -- the new operation is not in the order: it was not invoked
      obtain ⟨hid, -⟩ := Event.invoke.inj hlast
      exact absurd (mem_invoked (hl.invoked e he)) (hid ▸ hi)
  invokedOnce := by
    rw [List.filterMap_append]
    exact hl.invokedOnce.append (List.nodup_singleton i) (List.disjoint_singleton.mpr hi)
  answeredOnce := by
    have hnone : [Event.invoke i op].filterMap (Event.answered (R := R)) = [] := rfl
    rw [List.filterMap_append, hnone, List.append_nil]
    exact hl.answeredOnce

/-- An operation that was invoked takes effect. -/
theorem Linearizes.point (hl : Linearizes spec s₀ h order s) (hinv : .invoke i op ∈ h)
    (hi : i ∉ order.map Done.id) (hspec : spec i s op t r) : Linearizes spec s₀ h (order ++ [⟨i, op, r⟩]) t where
  legal := hl.legal.snoc hspec
  once := by
    rw [List.map_append]
    exact hl.once.append (List.nodup_singleton i) (List.disjoint_singleton.mpr hi)
  invoked := by
    intro d hd
    rcases List.mem_append.mp hd with hd | hd
    · exact hl.invoked d hd
    · obtain rfl := List.mem_singleton.mp hd
      exact hinv
  complete := by
    intro j r hj
    obtain ⟨op', hop'⟩ := hl.complete j r hj
    exact ⟨op', List.mem_append_left _ hop'⟩
  realTime := by
    intro d hd e he hsub
    rcases List.mem_append.mp hd with hd | hd
    · rcases List.mem_append.mp he with he | he
      · exact (hl.realTime d hd e he hsub).trans (List.sublist_append_left _ _)
      · exact (List.singleton_sublist.mpr hd).append (List.singleton_sublist.mpr he)
    · -- the operation is not answered: it had no effect so far
      obtain rfl := List.mem_singleton.mp hd
      obtain ⟨op', hop'⟩ := hl.complete i _ (hsub.subset List.mem_cons_self)
      exact absurd (List.mem_map_of_mem hop') hi
  invokedOnce := hl.invokedOnce
  answeredOnce := hl.answeredOnce

/-- An operation that took effect is answered. -/
theorem Linearizes.respond (hl : Linearizes spec s₀ h order s) (hdone : ⟨i, op, r⟩ ∈ order)
    (hi : i ∉ h.filterMap Event.answered) : Linearizes spec s₀ (h ++ [.respond i r]) order s where
  legal := hl.legal
  once := hl.once
  invoked := fun d hd => List.mem_append_left _ (hl.invoked d hd)
  complete := by
    intro j r' hj
    rcases List.mem_append.mp hj with hj | hj
    · exact hl.complete j r' hj
    · obtain ⟨rfl, rfl⟩ := Event.respond.inj (List.mem_singleton.mp hj)
      exact ⟨op, hdone⟩
  realTime := by
    intro d hd e he hsub
    refine hl.realTime d hd e he ?_
    rcases sublist_snoc hsub with hsub | ⟨hlast, -⟩
    · exact hsub
    · cases hlast
  invokedOnce := by
    have hnone : [Event.respond i r].filterMap (Event.invoked (O := O)) = [] := rfl
    rw [List.filterMap_append, hnone, List.append_nil]
    exact hl.invokedOnce
  answeredOnce := by
    rw [List.filterMap_append]
    exact hl.answeredOnce.append (List.nodup_singleton i) (List.disjoint_singleton.mpr hi)

section Runs

variable [DecidableEq ι] {f f' : ι → Option (Standing O R)}

/-- A step keeps the order that accounts for the history, and adds the operations that take effect. -/
theorem Linearizes.moves (hm : Moves spec f s es f' x) (hl : Linearizes spec s₀ h order s)
    (hst : ∀ i, Stands h order i (f i)) :
    ∃ ds, Linearizes spec s₀ (h ++ es) (order ++ ds) x ∧ ∀ i, Stands (h ++ es) (order ++ ds) i (f' i) := by
  induction hm generalizing h order with
  | skip => exact ⟨[], by simpa using hl, by simpa using hst⟩
  | @invoke f x i op hi =>
    have hfresh : i ∉ h.filterMap Event.invoked := by simpa only [hi, Stands] using hst i
    refine ⟨[], by simpa using hl.invoke hfresh, forall_stands_update hst (by simp [Event.id]) (by simp) ?_⟩
    refine ⟨by simp, fun hdone => hfresh ?_⟩
    obtain ⟨d, hd, rfl⟩ := List.mem_map.mp hdone
    exact mem_invoked (hl.invoked d (by simpa using hd))
  | @point f x y i op r hi hspec =>
    obtain ⟨hinv, hopen⟩ : .invoke i op ∈ h ∧ i ∉ order.map Done.id := by simpa only [hi, Stands] using hst i
    refine ⟨[_], by simpa using hl.point hinv hopen hspec, forall_stands_update hst (by simp) (by simp) ?_⟩
    refine ⟨by simp, fun hans => hopen ?_⟩
    obtain ⟨e, he, hid⟩ := List.mem_filterMap.mp hans
    cases e with
    | invoke j op => cases hid
    | respond j r =>
      obtain rfl : j = i := Option.some.inj hid
      obtain ⟨op', hop'⟩ := hl.complete j r (by simpa using he)
      exact List.mem_map_of_mem hop'
  | @respond f x i op r hi =>
    obtain ⟨hdone, hans⟩ : ⟨i, op, r⟩ ∈ order ∧ i ∉ h.filterMap Event.answered := by
      simpa only [hi, Stands] using hst i
    exact ⟨[], by simpa using hl.respond hdone hans,
      forall_stands_update hst (by simp [Event.id]) (by simp) trivial⟩
  | trans _ _ ih ih' =>
    obtain ⟨ds, hl', hst'⟩ := ih hl hst
    obtain ⟨ds', hl'', hst''⟩ := ih' hl' hst'
    simp only [List.append_assoc] at hl'' hst''
    exact ⟨ds ++ ds', hl'', hst''⟩

variable {τ : Type*} {α : Type*} {m : Machine τ α} {ok : τ → α → Prop} {u u' : τ} {as : List α}
  {standing : τ → ι → Option (Standing O R)} {obj : τ → σ} {see : τ → α → List (Event ι O R)}

/-- What is seen of a run, after what was seen before it, is accounted for by an order. -/
theorem Linearizes.run
    (hstep : ∀ u a u', ok u a → m u a = some u' → Moves spec (standing u) (obj u) (see u a) (standing u') (obj u'))
    (hrun : Machine.Run m ok u as u') (hl : Linearizes spec s₀ h order (obj u))
    (hst : ∀ i, Stands h order i (standing u i)) :
    ∃ order', Linearizes spec s₀ (h ++ m.observe see u as) order' (obj u') := by
  induction hrun generalizing h order with
  | nil => exact ⟨order, by simpa [Machine.observe] using hl⟩
  | @cons u v u' a as hok hs _ ih =>
    obtain ⟨ds, hl', hst'⟩ := hl.moves (hstep u a v hok hs) hst
    obtain ⟨order', hl''⟩ := ih hl' hst'
    refine ⟨order', ?_⟩
    rw [Machine.observe, hs, Option.map_some, Option.getD_some, ← List.append_assoc]
    exact hl''

/-- The rule of linearization points: when every step of a machine moves the operations on so, then
from a state in which none was invoked, what is seen of a run is linearizable. -/
theorem linearizableBy_of_moves
    (hstep : ∀ u a u', ok u a → m u a = some u' → Moves spec (standing u) (obj u) (see u a) (standing u') (obj u'))
    (hrun : Machine.Run m ok u as u') (h₀ : ∀ i, standing u i = none) :
    LinearizableBy spec (obj u) (m.observe see u as) := by
  obtain ⟨order, hl⟩ := Linearizes.nil.run hstep hrun fun i => by
    rw [h₀ i]
    simp [Stands]
  exact ⟨order, obj u', hl⟩

end Runs

/-! ### Operations that only look -/

/-- Where an operation stands that looks at the object. -/
inductive Reader (Q : Type w) (R : Type x) where
  /-- It has not looked. -/
  | waiting (query : Q)
  /-- It has looked, and its answer is to be given. -/
  | looked (query : Q) (answer : R)
  /-- Answered. -/
  | answered
  deriving DecidableEq, Repr

/-- A machine's state and the readers beside it, in the order in which they asked. -/
structure WithReaders (τ : Type u) (Q : Type w) (R : Type x) where
  /-- The machine's. -/
  inner : τ
  /-- The readers. -/
  readers : List (Reader Q R)
  deriving DecidableEq, Repr

/-- What can happen to them. -/
inductive ReadersAct (α : Type v) (Q : Type w) where
  /-- What can happen to the machine. -/
  | inner (act : α)
  /-- A reader asks. -/
  | ask (query : Q)
  /-- Reader `i` looks. -/
  | look (i : ℕ)
  /-- Reader `i` is answered. -/
  | answer (i : ℕ)

section Readers

variable {τ : Type*} {α : Type*} {Q : Type*}

/-- The machine with readers beside it; `look` says what they see. -/
def withReaders (m : Machine τ α) (look : τ → Q → R) : Machine (WithReaders τ Q R) (ReadersAct α Q) := fun u act =>
  match act with
  | .inner act => (m u.inner act).map fun inner => { u with inner }
  | .ask query => some { u with readers := u.readers ++ [.waiting query] }
  | .look i =>
    match u.readers[i]? with
    | some (.waiting query) => some { u with readers := u.readers.set i (.looked query (look u.inner query)) }
    | _ => none
  | .answer i =>
    match u.readers[i]? with
    | some (.looked _ _) => some { u with readers := u.readers.set i .answered }
    | _ => none

/-- The steps in which the machine's meet a condition of its own. -/
def InnerOk (ok : τ → α → Prop) (u : WithReaders τ Q R) : ReadersAct α Q → Prop
  | .inner act => ok u.inner act
  | .ask _ | .look _ | .answer _ => True

instance (ok : τ → α → Prop) [∀ u act, Decidable (ok u act)] (u : WithReaders τ Q R) :
    (act : ReadersAct α Q) → Decidable (InnerOk ok u act)
  | .inner act => inferInstanceAs (Decidable (ok u.inner act))
  | .ask _ | .look _ | .answer _ => .isTrue trivial

/-- An event of the machine, among those of the readers. -/
def Event.inl : Event ι O R → Event (ι ⊕ ℕ) O R
  | .invoke i op => .invoke (.inl i) op
  | .respond i r => .respond (.inl i) r

/-- What is seen of the machine and of the readers; `op` is what a reader asks of the object. -/
def seeReaders (see : τ → α → List (Event ι O R)) (op : Q → O) (u : WithReaders τ Q R) :
    ReadersAct α Q → List (Event (ι ⊕ ℕ) O R)
  | .inner act => (see u.inner act).map Event.inl
  | .ask query => [.invoke (.inr u.readers.length) (op query)]
  | .look _ => []
  | .answer i =>
    match u.readers[i]? with
    | some (.looked _ answer) => [.respond (.inr i) answer]
    | _ => []

/-- Where a reader stands. -/
def Reader.standing (op : Q → O) : Reader Q R → Standing O R
  | .waiting query => .pending (op query)
  | .looked query answer => .decided (op query) answer
  | .answered => .answered

/-- Where the operations of the machine and the readers stand. -/
def standingReaders (standing : τ → ι → Option (Standing O R)) (op : Q → O) (u : WithReaders τ Q R) :
    ι ⊕ ℕ → Option (Standing O R) :=
  Sum.elim (standing u.inner) fun i => u.readers[i]?.map (Reader.standing op)

variable {m : Machine τ α} {look : τ → Q → R} {ok : τ → α → Prop} {u u' : WithReaders τ Q R}
  {among : ι ⊕ ℕ → σ → O → σ → R → Prop}
  {standing : τ → ι → Option (Standing O R)} {obj : τ → σ} {see : τ → α → List (Event ι O R)} {toOp : Q → O}

theorem standingReaders_inr {r : Reader Q R} {i : ℕ} (hi : u.readers[i]? = some r) :
    standingReaders standing toOp u (.inr i) = some (r.standing toOp) := by
  simp only [standingReaders, Sum.elim_inr, hi, Option.map_some]

/-- Every step of the machine is taken where an invariant of its own holds. -/
theorem run_withReaders_of_invariant {I : τ → Prop} {as : List (ReadersAct α Q)}
    (hstep : ∀ v a v', I v → ok v a → m v a = some v' → I v')
    (hrun : Machine.Run (withReaders m look) (InnerOk ok) u as u') (h₀ : I u.inner) :
    Machine.Run (withReaders m look) (InnerOk fun v a => ok v a ∧ I v) u as u' := by
  have hinner : ∀ (v : WithReaders τ Q R) act v', I v.inner → InnerOk ok v act → withReaders m look v act = some v' →
      I v'.inner := by
    intro v act v' hI hok hs
    cases act with
    | inner act =>
      obtain ⟨inner, hinner, rfl⟩ := Option.map_eq_some_iff.mp hs
      exact hstep _ _ _ hI hok hinner
    | ask query =>
      obtain rfl := Option.some.inj hs
      exact hI
    | look i | answer i =>
      simp only [withReaders] at hs
      split at hs
      · obtain rfl := Option.some.inj hs
        exact hI
      · cases hs
  refine (hrun.with_invariant (I := fun v => I v.inner) hinner h₀).mono fun v act hok => ?_
  cases act with
  | inner act => exact ⟨hok.1, hok.2⟩
  | ask query | look i | answer i => trivial

/-- Every step of the machine meets what is known of the steps that the run passes. -/
theorem run_withReaders_of_passes {ok' : τ → α → Prop} {as : List (ReadersAct α Q)}
    (hrun : Machine.Run (withReaders m look) (InnerOk ok) u as u')
    (hpasses : ∀ v a v', Machine.Passes (withReaders m look) u as v (.inner a) v' → ok' v.inner a) :
    Machine.Run (withReaders m look) (InnerOk fun v a => ok v a ∧ ok' v a) u as u' := by
  refine Machine.run_iff_passes.mpr ⟨hrun.mono fun _ _ _ => trivial, fun v act v' hp => ?_⟩
  obtain ⟨-, -, -, -, hok, -⟩ := hp.cut hrun
  cases act with
  | inner a => exact ⟨hok, hpasses v a v' hp⟩
  | ask query | look i | answer i => trivial

variable [DecidableEq ι]

/-- What moves the machine's operations on moves them on among the others. -/
theorem Moves.inl {f f' : ι → Option (Standing O R)} (hm : Moves (fun i => among (.inl i)) f s es f' t)
    (g : ℕ → Option (Standing O R)) :
    Moves among (Sum.elim f g) s (es.map Event.inl) (Sum.elim f' g) t := by
  induction hm with
  | skip => exact .skip
  | invoke hi =>
    rw [Sum.elim_update_left]
    exact .invoke hi
  | point hi hspec =>
    rw [Sum.elim_update_left]
    exact .point hi hspec
  | respond hi =>
    rw [Sum.elim_update_left]
    exact .respond hi
  | trans _ _ ih ih' =>
    rw [List.map_append]
    exact ih.trans ih'

theorem standingReaders_set {r r' : Reader Q R} {i : ℕ} (hi : u.readers[i]? = some r) :
    standingReaders standing toOp { u with readers := u.readers.set i r' } =
      Function.update (standingReaders standing toOp u) (.inr i) (some (r'.standing toOp)) := by
  simp only [standingReaders, Pool.map_set (Reader.standing toOp) hi, Sum.elim_update_right]

theorem standingReaders_add {r : Reader Q R} :
    standingReaders standing toOp { u with readers := u.readers ++ [r] } =
      Function.update (standingReaders standing toOp u) (.inr u.readers.length) (some (r.standing toOp)) := by
  simp only [standingReaders, Pool.map_add, Sum.elim_update_right]

/-- Readers linearize with a machine whose operations do: a reader takes effect when it looks. -/
theorem moves_withReaders
    (hstep : ∀ v a v', ok v a → m v a = some v' → Moves (fun i => among (.inl i)) (standing v) (obj v) (see v a)
      (standing v') (obj v'))
    (hlook : ∀ i v q, among (.inr i) (obj v) (toOp q) (obj v) (look v q)) (act : ReadersAct α Q) (hok : InnerOk ok u act)
    (hs : withReaders m look u act = some u') :
    Moves among (standingReaders standing toOp u) (obj u.inner) (seeReaders see toOp u act)
      (standingReaders standing toOp u') (obj u'.inner) := by
  cases act with
  | inner act =>
    obtain ⟨inner, hinner, rfl⟩ := Option.map_eq_some_iff.mp hs
    exact (hstep _ _ _ hok hinner).inl _
  | ask query =>
    obtain rfl := Option.some.inj hs
    rw [standingReaders_add]
    exact .invoke (by simp [standingReaders])
  | look i =>
    simp only [withReaders] at hs
    split at hs
    · rename_i query hi
      obtain rfl := Option.some.inj hs
      rw [standingReaders_set hi]
      exact .point (standingReaders_inr hi) (hlook _ _ _)
    · cases hs
  | answer i =>
    simp only [withReaders] at hs
    split at hs
    · rename_i query answer hi
      obtain rfl := Option.some.inj hs
      rw [standingReaders_set hi]
      simp only [seeReaders, hi]
      exact .respond (standingReaders_inr hi)
    · cases hs

/-- The rule of linearization points for a machine with readers beside it. -/
theorem linearizableBy_withReaders {as : List (ReadersAct α Q)}
    (hstep : ∀ v a v', ok v a → m v a = some v' → Moves (fun i => among (.inl i)) (standing v) (obj v) (see v a)
      (standing v') (obj v'))
    (hlook : ∀ i v q, among (.inr i) (obj v) (toOp q) (obj v) (look v q))
    (hrun : Machine.Run (withReaders m look) (InnerOk ok) u as u') (hreaders : u.readers = [])
    (h₀ : ∀ i, standing u.inner i = none) :
    LinearizableBy among (obj u.inner) ((withReaders m look).observe (seeReaders see toOp) u as) := by
  have hmoves : ∀ v act v', InnerOk ok v act → withReaders m look v act = some v' →
      Moves among (standingReaders standing toOp v) (obj v.inner) (seeReaders see toOp v act)
        (standingReaders standing toOp v') (obj v'.inner) := fun v act v' hok hs =>
    moves_withReaders hstep hlook act hok hs
  refine linearizableBy_of_moves hmoves hrun fun i => ?_
  cases i with
  | inl i => exact h₀ i
  | inr i => simp [standingReaders, hreaders]

/-- The same, when what the object does is not a matter of which operation it is. -/
theorem linearizable_withReaders {all : σ → O → σ → R → Prop} {as : List (ReadersAct α Q)}
    (hstep : ∀ v a v', ok v a → m v a = some v' → Moves (fun _ => all) (standing v) (obj v) (see v a)
      (standing v') (obj v'))
    (hlook : ∀ v q, all (obj v) (toOp q) (obj v) (look v q))
    (hrun : Machine.Run (withReaders m look) (InnerOk ok) u as u') (hreaders : u.readers = [])
    (h₀ : ∀ i, standing u.inner i = none) :
    Linearizable all (obj u.inner) ((withReaders m look).observe (seeReaders see toOp) u as) :=
  linearizableBy_withReaders hstep (fun _ => hlook) hrun hreaders h₀

end Readers

end HelmAlarm.Library.Linearizability
