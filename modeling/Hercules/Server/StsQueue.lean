/-
# The queue of free buffers

`StsQueue` is the linked list in which a data server keeps the buffers that wait for reuse.
An element is allocated and filled before the lock of the queue is taken; it is linked to the
last element under the lock. `pop` unlinks and frees the first element under the lock. When
the queue becomes empty, `tail` keeps the address of an element that has been freed, and the
allocator may give that address to another thread.

Any number of threads use the queue, and their steps are taken in any order. An access to an
address that is not allocated has no result, so a run that has one never touches memory that
has been freed. The size is an `int`, and an overflow has no result either.
-/

import Hercules.Lib.Chain
import Hercules.Lib.Run

namespace Hercules

open Lib

/-- `StsHeader`, with the elements that are allocated. The size is an `int`. -/
structure StsQueue (α : Type) where
  heap : Heap α
  head : Option Address
  tail : Option Address
  size : Int

namespace StsQueue

variable {α : Type}

/-- `create`. -/
def create : StsQueue α :=
  ⟨fun _ => none, none, none, 0⟩

/-- The part of `push` before the lock: `malloc` returns an address, and the element is filled. -/
def newElement (queue : StsQueue α) (element : Address) (value : α) : StsQueue α :=
  { queue with heap := Function.update queue.heap element (some ⟨none, value⟩) }

/-- The part of `push` under the lock; at `INT_MAX` elements the size overflows. -/
def push (queue : StsQueue α) (element : Address) : Option (StsQueue α) :=
  if queue.size = 2147483647 then none
  else
    match queue.head with
    | none => some { queue with head := some element, tail := some element, size := queue.size + 1 }
    | some _ => do
        let oldTail ← queue.tail
        let cell ← queue.heap oldTail
        pure { queue with
          heap := Function.update queue.heap oldTail (some { cell with next := some element })
          tail := some element
          size := queue.size + 1 }

/-- `pop`: the value, or a null pointer if the queue is empty. -/
def pop (queue : StsQueue α) : Option (Option α × StsQueue α) :=
  match queue.head with
  | none => some (none, queue)
  | some head => do
      let cell ← queue.heap head
      if queue.size = -2147483648 then none
      else
        pure (some cell.value, { queue with
          heap := Function.update queue.heap head none
          head := cell.next
          size := queue.size - 1 })

/-- The queue has these elements, from the first one to the last one. -/
structure Holds (queue : StsQueue α) (cells : List (Address × α)) : Prop where
  chain : Chain queue.heap queue.head cells
  nodup : (cells.map Prod.fst).Nodup
  tail : ∀ cell ∈ cells.getLast?, queue.tail = some cell.1
  size : queue.size = cells.length

variable {queue queue' : StsQueue α} {cells : List (Address × α)} {element : Address} {value : α}

theorem Holds.create : (create : StsQueue α).Holds [] := by
  refine ⟨rfl, List.nodup_nil, ?_, rfl⟩
  intro cell hcell
  cases hcell

theorem Holds.notMem_of_free (hholds : queue.Holds cells) (hfree : queue.heap element = none) :
    element ∉ cells.map Prod.fst := by
  intro hmem
  have hsome := hholds.chain.isSome_of_mem hmem
  rw [hfree] at hsome
  cases hsome

/-- A new element is not in the queue yet. -/
theorem Holds.newElement (hholds : queue.Holds cells) (hfree : queue.heap element = none)
    (value : α) : (queue.newElement element value).Holds cells :=
  ⟨hholds.chain.update_of_notMem (hholds.notMem_of_free hfree) _, hholds.nodup, hholds.tail,
    hholds.size⟩

/-- An element that has been filled and is not in the queue becomes the last one. The elements
that are allocated stay the same. -/
theorem Holds.push (hholds : queue.Holds cells) (hnew : queue.heap element = some ⟨none, value⟩)
    (hmem : element ∉ cells.map Prod.fst) (hroom : queue.size ≠ 2147483647) :
    ∃ queue', queue.push element = some queue' ∧ queue'.Holds (cells ++ [(element, value)]) ∧
      ∀ a, a ∉ cells.map Prod.fst → queue'.heap a = queue.heap a := by
  have hnodup : ((cells ++ [(element, value)]).map Prod.fst).Nodup := by
    rw [List.map_append]
    exact List.nodup_append'.mpr ⟨hholds.nodup, List.nodup_singleton element,
      List.disjoint_singleton.mpr hmem⟩
  have hsize : queue.size + 1 = (cells ++ [(element, value)]).length := by
    rw [hholds.size, List.length_append]
    rfl
  have htail : ∀ cell ∈ (cells ++ [(element, value)]).getLast?,
      some element = some cell.1 := by
    intro cell hcell
    rw [List.getLast?_append, List.getLast?_singleton, Option.some_or] at hcell
    rw [← Option.some.inj hcell]
  rcases List.eq_nil_or_concat' cells with rfl | ⟨before, ⟨last, y⟩, rfl⟩
  · have hhead : queue.head = none := hholds.chain
    refine ⟨{ queue with head := some element, tail := some element, size := queue.size + 1 },
      ?_, ⟨⟨rfl, none, hnew, rfl⟩, hnodup, htail, hsize⟩, fun _ _ => rfl⟩
    rw [StsQueue.push, if_neg hroom, hhead]
  · have htail' : queue.tail = some last := hholds.tail (last, y) (by simp)
    obtain ⟨next, hcell⟩ := hholds.chain.cell_of_mem (a := last) (x := y) (by simp)
    obtain ⟨head, hhead⟩ : ∃ head, queue.head = some head := by
      rw [hholds.chain.first_eq]
      cases before <;> exact ⟨_, rfl⟩
    refine ⟨{ queue with
        heap := Function.update queue.heap last (some ⟨some element, y⟩)
        tail := some element
        size := queue.size + 1 }, ?_,
      ⟨hholds.chain.link hholds.nodup hnew hmem, hnodup, htail, hsize⟩, ?_⟩
    · rw [StsQueue.push, if_neg hroom]
      simp [hhead, htail', hcell]
    · intro a ha
      have hne : a ≠ last := fun heq => ha (by simp [heq])
      exact Function.update_of_ne hne _ queue.heap

/-- The first element is taken and freed. -/
theorem Holds.pop (hholds : queue.Holds cells) :
    ∃ queue', queue.pop = some ((cells.head?).map Prod.snd, queue') ∧ queue'.Holds cells.tail ∧
      ∀ a, queue'.heap a = if a ∈ (cells.take 1).map Prod.fst then none else queue.heap a := by
  cases cells with
  | nil =>
      have hhead : queue.head = none := hholds.chain
      refine ⟨queue, ?_, hholds, fun a => ?_⟩
      · rw [StsQueue.pop, hhead]
        rfl
      · simp
  | cons cell cells =>
      obtain ⟨first, x⟩ := cell
      obtain ⟨hhead, next, hcell, hrest⟩ := hholds.chain
      have hnodup := hholds.nodup
      rw [List.map_cons, List.nodup_cons] at hnodup
      have hsize := hholds.size
      rw [List.length_cons] at hsize
      refine ⟨{ queue with
          heap := Function.update queue.heap first none
          head := next
          size := queue.size - 1 }, ?_,
        ⟨hrest.update_of_notMem hnodup.1 none, hnodup.2, ?_, ?_⟩, fun a => ?_⟩
      · have hroom : queue.size ≠ -2147483648 := by omega
        simp [StsQueue.pop, hhead, hcell, hroom]
      · intro last hlast
        cases cells with
        | nil => cases hlast
        | cons second cells =>
            apply hholds.tail
            rw [List.getLast?_cons_cons]
            exact hlast
      · simp only [hsize, List.tail_cons]
        omega
      · rcases eq_or_ne a first with rfl | hne
        · simp
        · simp [hne]

end StsQueue

/-! ## Threads -/

/-- The queue, the element of each thread that has been allocated and not been linked, and what
the calls have returned. -/
structure QueueThreads (ι : Type) (α : Type) where
  queue : StsQueue α
  element : ι → Option Address
  log : List (Option α ⊕ Int)

/-- The steps of the threads: the two halves of `push`, `pop` and `size`. The address is the one
that `malloc` returns. -/
inductive QueueAction (ι : Type) (α : Type)
  | newElement (i : ι) (value : α) (address : Address)
  | push (i : ι)
  | pop
  | size

/-- What the queue is for: first in, first out. -/
structure Fifo (ι : Type) (α : Type) where
  values : List α
  pending : ι → Option α
  log : List (Option α ⊕ Int)

section Steps

variable {ι : Type} [DecidableEq ι] {α : Type}

/-- The threads before their first step. -/
def QueueThreads.init : QueueThreads ι α :=
  ⟨.create, fun _ => none, []⟩

/-- One step. There is none if an address is used that is not allocated, or the size overflows. -/
def QueueThreads.step (threads : QueueThreads ι α) : QueueAction ι α → Option (QueueThreads ι α)
  | .newElement i value address =>
      some { threads with
        queue := threads.queue.newElement address value
        element := Function.update threads.element i (some address) }
  | .push i => do
      let element ← threads.element i
      let queue ← threads.queue.push element
      pure { threads with queue := queue, element := Function.update threads.element i none }
  | .pop => do
      let (value, queue) ← threads.queue.pop
      pure { threads with queue := queue, log := threads.log ++ [.inl value] }
  | .size => some { threads with log := threads.log ++ [.inr threads.queue.size] }

/-- `malloc` returns an address that is not allocated, and a thread links the element that it has
allocated to fewer elements than an `int` can count. -/
def QueueThreads.Possible (threads : QueueThreads ι α) : QueueAction ι α → Prop
  | .newElement i _ address =>
      threads.queue.heap address = none ∧ threads.element i = none
  | .push i => threads.element i ≠ none ∧ threads.queue.size < 2147483647
  | .pop | .size => True

def Fifo.init : Fifo ι α :=
  ⟨[], fun _ => none, []⟩

/-- The same steps on a list of values. -/
def Fifo.next (fifo : Fifo ι α) : QueueAction ι α → Fifo ι α
  | .newElement i value _ => { fifo with pending := Function.update fifo.pending i (some value) }
  | .push i =>
      { fifo with
        values := fifo.values ++ (fifo.pending i).toList
        pending := Function.update fifo.pending i none }
  | .pop => { fifo with values := fifo.values.tail, log := fifo.log ++ [.inl fifo.values.head?] }
  | .size => { fifo with log := fifo.log ++ [.inr fifo.values.length] }

instance (threads : QueueThreads ι α) (action : QueueAction ι α) :
    Decidable (threads.Possible action) :=
  match action with
  | .newElement i _ address =>
      decidable_of_iff ((threads.queue.heap address).isNone ∧ (threads.element i).isNone)
        (and_congr Option.isNone_iff_eq_none Option.isNone_iff_eq_none)
  | .push i =>
      decidable_of_iff ((threads.element i).isSome ∧ threads.queue.size < 2147483647)
        (and_congr_left' Option.isSome_iff_ne_none)
  | .pop | .size => isTrue trivial

/-- The threads follow the list. An element that a thread has allocated and not linked is not in
the queue and belongs to this thread alone, and nothing else is allocated. -/
structure QueueThreads.Follows (cells : List (Address × α)) (threads : QueueThreads ι α)
    (fifo : Fifo ι α) : Prop where
  holds : threads.queue.Holds cells
  values : cells.map Prod.snd = fifo.values
  pending : ∀ i a, threads.element i = some a → a ∉ cells.map Prod.fst ∧
    ∃ value, threads.queue.heap a = some ⟨none, value⟩ ∧ fifo.pending i = some value
  inj : ∀ i j a, threads.element i = some a → threads.element j = some a → i = j
  allocated : ∀ a, (threads.queue.heap a).isSome →
    a ∈ cells.map Prod.fst ∨ ∃ i, threads.element i = some a
  log : threads.log = fifo.log

namespace QueueThreads.Follows

variable {cells : List (Address × α)} {threads : QueueThreads ι α} {fifo : Fifo ι α} {i : ι}
  {address : Address}

omit [DecidableEq ι] in
theorem init : Follows [] (QueueThreads.init : QueueThreads ι α) Fifo.init := by
  refine ⟨.create, rfl, ?_, ?_, ?_, rfl⟩
  · intro i a helement
    cases helement
  · intro i j a helement
    cases helement
  · intro a hsome
    cases hsome

omit [DecidableEq ι] in
/-- The elements are allocated. -/
theorem isSome_of_element (hfollows : Follows cells threads fifo)
    (helement : threads.element i = some address) : (threads.queue.heap address).isSome := by
  obtain ⟨-, value, hcell, -⟩ := hfollows.pending i address helement
  rw [hcell]
  rfl

/-- The first half of `push`. -/
theorem newElement (hfollows : Follows cells threads fifo)
    (hfree : threads.queue.heap address = none) (hidle : threads.element i = none) (value : α) :
    Follows cells
      { threads with
        queue := threads.queue.newElement address value
        element := Function.update threads.element i (some address) }
      (fifo.next (.newElement i value address)) := by
  have hnotMem := hfollows.holds.notMem_of_free hfree
  have hne : ∀ j a, threads.element j = some a → a ≠ address := by
    rintro j a helement rfl
    have hsome := hfollows.isSome_of_element helement
    rw [hfree] at hsome
    cases hsome
  refine ⟨hfollows.holds.newElement hfree value, hfollows.values, ?_, ?_, ?_, hfollows.log⟩
  · intro j a helement
    rcases eq_or_ne j i with rfl | hji
    · obtain rfl := Option.some.inj ((Function.update_self j _ _).symm.trans helement)
      exact ⟨hnotMem, value, Function.update_self address _ _, Function.update_self j _ _⟩
    · have helement' := (Function.update_of_ne hji _ _).symm.trans helement
      obtain ⟨hmem, value', hcell, hpending⟩ := hfollows.pending j a helement'
      exact ⟨hmem, value', (Function.update_of_ne (hne j a helement') _ _).trans hcell,
        (Function.update_of_ne hji _ _).trans hpending⟩
  · intro j k a hj hk
    simp only [Function.update_apply] at hj hk
    split_ifs at hj hk with hji hki hki
    · exact hji.trans hki.symm
    · exact absurd (Option.some.inj hj).symm (hne k a hk)
    · exact absurd (Option.some.inj hk).symm (hne j a hj)
    · exact hfollows.inj j k a hj hk
  · intro a hsome
    rcases eq_or_ne a address with rfl | ha
    · exact Or.inr ⟨i, Function.update_self i _ _⟩
    · rw [show (threads.queue.newElement address value).heap a = threads.queue.heap a from
        Function.update_of_ne ha _ _] at hsome
      rcases hfollows.allocated a hsome with hmem | ⟨j, helement⟩
      · exact Or.inl hmem
      · have hji : j ≠ i := fun heq => by
          rw [heq, hidle] at helement
          cases helement
        exact Or.inr ⟨j, (Function.update_of_ne hji _ _).trans helement⟩

/-- The second half of `push`. -/
theorem push (hfollows : Follows cells threads fifo) (helement : threads.element i = some address)
    (hroom : threads.queue.size ≠ 2147483647) :
    ∃ value queue, threads.queue.push address = some queue ∧
      Follows (cells ++ [(address, value)])
        { threads with queue := queue, element := Function.update threads.element i none }
        (fifo.next (.push i)) := by
  obtain ⟨hmem, value, hcell, hpending⟩ := hfollows.pending i address helement
  obtain ⟨queue, hpush, hholds, hheap⟩ := hfollows.holds.push hcell hmem hroom
  have hother : ∀ j a, Function.update threads.element i none j = some a →
      threads.element j = some a ∧ a ≠ address ∧ j ≠ i := by
    intro j a hj
    rw [Function.update_apply] at hj
    split_ifs at hj with hji
    refine ⟨hj, ?_, hji⟩
    rintro rfl
    exact hji (hfollows.inj j i a hj helement)
  refine ⟨value, queue, hpush, hholds, ?_, ?_, ?_, ?_, hfollows.log⟩
  · rw [List.map_append, hfollows.values, Fifo.next, hpending]
    rfl
  · intro j a hj
    obtain ⟨helement', ha, hji⟩ := hother j a hj
    obtain ⟨hmem', value', hcell', hpending'⟩ := hfollows.pending j a helement'
    refine ⟨?_, value', (hheap a hmem').trans hcell',
      (Function.update_of_ne hji _ _).trans hpending'⟩
    rw [List.map_append, List.mem_append, not_or]
    exact ⟨hmem', fun h => ha (List.mem_singleton.mp h)⟩
  · intro j k a hj hk
    exact hfollows.inj j k a (hother j a hj).1 (hother k a hk).1
  · intro a hsome
    rw [List.map_append, List.mem_append]
    by_cases hmem' : a ∈ cells.map Prod.fst
    · exact Or.inl (Or.inl hmem')
    · rw [hheap a hmem'] at hsome
      rcases hfollows.allocated a hsome with hold | ⟨j, hj⟩
      · exact Or.inl (Or.inl hold)
      · rcases eq_or_ne j i with rfl | hji
        · obtain rfl := Option.some.inj (helement.symm.trans hj)
          exact Or.inl (Or.inr List.mem_cons_self)
        · exact Or.inr ⟨j, (Function.update_of_ne hji _ _).trans hj⟩

theorem pop (hfollows : Follows cells threads fifo) :
    ∃ queue, threads.queue.pop = some (fifo.values.head?, queue) ∧
      Follows cells.tail
        { threads with queue := queue, log := threads.log ++ [.inl fifo.values.head?] }
        (fifo.next .pop) := by
  obtain ⟨queue, hpop, hholds, hheap⟩ := hfollows.holds.pop
  have hhead : cells.head?.map Prod.snd = fifo.values.head? := by
    rw [← hfollows.values, List.head?_map]
  refine ⟨queue, hhead ▸ hpop, hholds, ?_, ?_, hfollows.inj, ?_, ?_⟩
  · rw [List.map_tail, hfollows.values]
    rfl
  · intro j a hj
    obtain ⟨hmem, value, hcell, hpending⟩ := hfollows.pending j a hj
    refine ⟨fun h => hmem ?_, value, ?_, hpending⟩
    · rw [List.map_tail] at h
      exact List.mem_of_mem_tail h
    · rw [← hcell]
      refine (hheap a).trans (if_neg fun h => hmem ?_)
      rw [List.map_take] at h
      exact List.mem_of_mem_take h
  · intro a hsome
    have hfirst : a ∉ (cells.take 1).map Prod.fst := by
      intro hfirst
      rw [(hheap a).trans (if_pos hfirst)] at hsome
      cases hsome
    rw [(hheap a).trans (if_neg hfirst)] at hsome
    rcases hfollows.allocated a hsome with hmem | helement
    · cases cells with
      | nil => exact Or.inl hmem
      | cons cell cells =>
          rcases List.mem_cons.mp hmem with rfl | htail
          · exact absurd List.mem_cons_self hfirst
          · exact Or.inl htail
    · exact Or.inr helement
  · rw [hfollows.log]
    rfl

theorem size (hfollows : Follows cells threads fifo) :
    Follows cells { threads with log := threads.log ++ [.inr threads.queue.size] }
      (fifo.next .size) := by
  refine ⟨hfollows.holds, hfollows.values, hfollows.pending, hfollows.inj, hfollows.allocated, ?_⟩
  rw [hfollows.log, hfollows.holds.size, Fifo.next, ← hfollows.values, List.length_map]

/-- A possible step has a result, and the list follows it. -/
theorem step (threads : QueueThreads ι α) (action : QueueAction ι α) (fifo : Fifo ι α)
    (hfollows : ∃ cells, Follows cells threads fifo) (hpossible : threads.Possible action) :
    ∃ threads', threads.step action = some threads' ∧
      ∃ cells, Follows cells threads' (fifo.next action) := by
  obtain ⟨cells, hfollows⟩ := hfollows
  cases action with
  | newElement i value address =>
      exact ⟨_, rfl, cells, hfollows.newElement hpossible.1 hpossible.2 value⟩
  | push i =>
      obtain ⟨address, helement⟩ := Option.ne_none_iff_exists'.mp hpossible.1
      obtain ⟨value, queue, hpush, hfollows'⟩ := hfollows.push helement (Int.ne_of_lt hpossible.2)
      exact ⟨_, by simp [QueueThreads.step, helement, hpush], _, hfollows'⟩
  | pop =>
      obtain ⟨queue, hpop, hfollows'⟩ := hfollows.pop
      exact ⟨_, by simp [QueueThreads.step, hpop], _, hfollows'⟩
  | size => exact ⟨_, rfl, cells, hfollows.size⟩

end QueueThreads.Follows

/-- Over every interleaving of any number of threads in which the queue never has more elements than
an `int` can count, whatever free addresses `malloc` returns: no step uses an address that is not
allocated, the calls return what they return on a list of values, the queue has the values of the
list, and the elements that are allocated are exactly those of the queue and those that a thread is
going to link. -/
theorem stsQueue_follows_fifo (actions : List (QueueAction ι α))
    (hpossible : Along QueueThreads.step QueueThreads.Possible actions QueueThreads.init) :
    ∃ threads cells, run QueueThreads.step actions QueueThreads.init = some threads ∧
      threads.log = (actions.foldl Fifo.next Fifo.init).log ∧
      threads.queue.Holds cells ∧
      cells.map Prod.snd = (actions.foldl Fifo.next Fifo.init).values ∧
      ∀ a, (threads.queue.heap a).isSome ↔
        a ∈ cells.map Prod.fst ∨ ∃ i, threads.element i = some a := by
  obtain ⟨threads, hrun, cells, hfollows⟩ :=
    hpossible.forward_simulation QueueThreads.Follows.step ⟨[], .init⟩
  refine ⟨threads, cells, hrun, hfollows.log, hfollows.holds, hfollows.values, fun a => ?_⟩
  refine ⟨hfollows.allocated a, ?_⟩
  rintro (hmem | ⟨i, helement⟩)
  · exact hfollows.holds.chain.isSome_of_mem hmem
  · exact hfollows.isSome_of_element helement

end Steps

/-- The first thread links the element at 8 and takes it again; `malloc` gives the address 8, which
`tail` still has, to the second thread, which links it after the first thread has linked 16. -/
def reusedAddress : List (QueueAction Bool Char) :=
  [.newElement false 'a' 8, .push false, .pop, .newElement true 'b' 8, .newElement false 'c' 16,
    .push false, .push true, .size, .pop, .pop, .pop]

theorem stsQueue_follows_fifo_reusedAddress :
    ∃ threads, run QueueThreads.step reusedAddress QueueThreads.init = some threads ∧
      threads.log = [.inl (some 'a'), .inr 2, .inl (some 'c'), .inl (some 'b'), .inl none] := by
  obtain ⟨threads, -, hrun, hlog, -⟩ := stsQueue_follows_fifo reusedAddress (by decide)
  exact ⟨threads, hrun, hlog⟩

end Hercules
