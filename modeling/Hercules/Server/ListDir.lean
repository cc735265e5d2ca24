/-
# The two-level map as a flat map

A server keeps its entries in one map per directory. Seen from outside, lookups cannot
tell this from one flat map from keys to values, in which an insertion keeps what is
there. A listing of a directory is the part of the flat map whose keys have that parent.

A listing leaves the server as a buffer with `URI_` bytes for each key. A longer key runs
into the place of the next one, so what can be read from the buffer is the directory only
if all of its keys fit.
-/

import Hercules.Lib.Slots
import Hercules.HierarchicalRecords

namespace Hercules

open Std Lib Lib.Text Lib.Slots

universe u

/-- `URI_`. -/
def uriSize : Nat := 256

/-- A URI below the root, or such a URI with a block number. -/
structure IsStoreKey (key : CString) : Prop where
  uri_or_block : ∃ uri, imssRoot <+: uri ∧ nul ∉ uri ∧
    (key = uri ∨ ∃ block : Nat, key = blockKey uri block)

/-- A key that `IsStoreKey` admits. -/
abbrev StoreKey := { key : CString // IsStoreKey key }

theorem IsStoreKey.nul_notMem {key : CString} (hkey : IsStoreKey key) : nul ∉ key := by
  obtain ⟨uri, -, huri, rfl | ⟨block, rfl⟩⟩ := hkey.uri_or_block
  · exact huri
  · have hdecimal : nul ∉ decimal block := notMem_decimal (by decide) (by decide) block
    have hdollar : nul ≠ '$' := by decide
    simp [blockKey, huri, hdollar, hdecimal]

namespace HierarchicalRecords

variable {V : Type u}

/-- `HierarchicalMapListDir`: the number of elements, -1 for a directory without a map, and the
buffer. -/
def listDirBuffer (store : HierarchicalRecords V) (desiredDir : CString) : Int × (Nat → Char) :=
  match store.hierarchicalMapListDir desiredDir with
  | none => (-1, fun _ => nul)
  | some names => (names.length, writeSlots uriSize nul names)

/-- The keys that can be read from the buffer. -/
def listed (store : HierarchicalRecords V) (desiredDir : CString) : List CString :=
  readSlots uriSize nul (store.listDirBuffer desiredDir).1.toNat (store.listDirBuffer desiredDir).2

end HierarchicalRecords

/-! ## Calls and answers -/

/-- The calls of a server without renames. -/
inductive StoreCall (V : Type u)
  | put (key : StoreKey) (value : V) (isZeroBlock : Bool)
  | get (key : StoreKey)
  | deleteEntry (key : StoreKey)

namespace StoreCall

variable {V : Type u}

/-- A call to the two-level map, with the answer if it is a lookup. -/
def call (isDirectory : V → Bool) (store : HierarchicalRecords V) :
    StoreCall V → HierarchicalRecords V × Option (Option V)
  | .put key value isZeroBlock =>
      (store.hierarchicalMapPut isDirectory key.1 value isZeroBlock, none)
  | .get key => (store, some (store.hierarchicalMapGet key.1))
  | .deleteEntry key => (store.hierarchicalMapDeleteEntry key.1, none)

/-- The store after a sequence of calls. -/
def after (isDirectory : V → Bool) (store : HierarchicalRecords V) (calls : List (StoreCall V)) :
    HierarchicalRecords V :=
  calls.foldl (fun store c => (call isDirectory store c).1) store

/-- The answers to the lookups of a sequence of calls. -/
def answers (isDirectory : V → Bool) :
    HierarchicalRecords V → List (StoreCall V) → List (Option V)
  | _, [] => []
  | store, c :: calls =>
      (call isDirectory store c).2.toList ++ answers isDirectory (call isDirectory store c).1 calls

/-- The same call to a flat map in which an insertion keeps what is there. -/
def flatCall (flat : CString → Option V) : StoreCall V → (CString → Option V) × Option (Option V)
  | .put key value _ => (Function.update flat key.1 (some ((flat key.1).getD value)), none)
  | .get key => (flat, some (flat key.1))
  | .deleteEntry key => (Function.update flat key.1 none, none)

/-- The flat map after a sequence of calls. -/
def flatAfter (flat : CString → Option V) (calls : List (StoreCall V)) : CString → Option V :=
  calls.foldl (fun flat c => (flatCall flat c).1) flat

/-- The answers of the flat map. -/
def flatAnswers : (CString → Option V) → List (StoreCall V) → List (Option V)
  | _, [] => []
  | flat, c :: calls => (flatCall flat c).2.toList ++ flatAnswers (flatCall flat c).1 calls

end StoreCall

/-! ## The refinement -/

/-- The two-level map stands for the flat map, every key is in the map of its own directory,
and no key has a terminating character. -/
structure Refines {V : Type u} (store : HierarchicalRecords V) (flat : CString → Option V) :
    Prop where
  get : ∀ key, store.hierarchicalMapGet key = flat key
  filed : store.Filed
  nul_free : store.EveryKey fun _ key => nul ∉ key

variable {V : Type u} {isDirectory : V → Bool} {store : HierarchicalRecords V}
  {flat : CString → Option V}

theorem refines_init (root : CString) :
    Refines (HierarchicalRecords.init root) (V := V) fun _ => none where
  get := HierarchicalRecords.hierarchicalMapGet_init root
  filed := HierarchicalRecords.everyKey_init _ root
  nul_free := HierarchicalRecords.everyKey_init _ root

theorem hierarchicalMapGet_put (isDirectory : V → Bool) (store : HierarchicalRecords V)
    (key key' : CString) (value : V) (isZeroBlock : Bool) :
    (store.hierarchicalMapPut isDirectory key value isZeroBlock).hierarchicalMapGet key' =
      if key' = key then some ((store.hierarchicalMapGet key).getD value)
      else store.hierarchicalMapGet key' := by
  by_cases hkey : key' = key
  · subst hkey
    rw [if_pos rfl]
    cases hget : store.hierarchicalMapGet key' with
    | none =>
        exact HierarchicalRecords.hierarchicalMapGet_put_self isDirectory hget value isZeroBlock
    | some stored =>
        exact HierarchicalRecords.hierarchicalMapGet_put_of_some isDirectory hget value isZeroBlock
  · rw [if_neg hkey]
    exact HierarchicalRecords.hierarchicalMapGet_put_of_ne isDirectory store (Ne.symm hkey) value
      isZeroBlock

/-- One call keeps the refinement. -/
theorem Refines.call (href : Refines store flat) (c : StoreCall V) :
    Refines (c.call isDirectory store).1 (c.flatCall flat).1 := by
  cases c with
  | put key value isZeroBlock =>
      refine ⟨fun key' => ?_, ?_, ?_⟩
      · change (store.hierarchicalMapPut isDirectory key.1 value isZeroBlock).hierarchicalMapGet
          key' =
          Function.update flat key.1 (some ((flat key.1).getD value)) key'
        rw [hierarchicalMapGet_put, href.get, href.get, Function.update_apply]
      · exact href.filed.put rfl isDirectory value isZeroBlock
      · exact href.nul_free.put key.2.nul_notMem isDirectory value isZeroBlock
  | get key => exact href
  | deleteEntry key =>
      refine ⟨fun key' => ?_, ?_, ?_⟩
      · change (store.hierarchicalMapDeleteEntry key.1).hierarchicalMapGet key' =
          Function.update flat key.1 none key'
        rw [HierarchicalRecords.hierarchicalMapGet_deleteEntry, href.get, Function.update_apply]
        simp only [eq_comm]
      · exact href.filed.deleteEntry key.1
      · exact href.nul_free.deleteEntry key.1

theorem Refines.answer (href : Refines store flat) (c : StoreCall V) :
    (c.call isDirectory store).2 = (c.flatCall flat).2 := by
  cases c with
  | put key value isZeroBlock => rfl
  | get key => exact congrArg some (href.get key.1)
  | deleteEntry key => rfl

theorem Refines.after (href : Refines store flat) (calls : List (StoreCall V)) :
    Refines (StoreCall.after isDirectory store calls) (StoreCall.flatAfter flat calls) := by
  induction calls generalizing store flat with
  | nil => exact href
  | cons c calls ih => exact ih (href.call c)

/-- A sequence of calls gets the answers of the flat map. -/
theorem Refines.answers_eq (href : Refines store flat) (calls : List (StoreCall V)) :
    StoreCall.answers isDirectory store calls = StoreCall.flatAnswers flat calls := by
  induction calls generalizing store flat with
  | nil => rfl
  | cons c calls ih =>
      rw [StoreCall.answers, StoreCall.flatAnswers, href.answer, ih (href.call c)]

/-! ## Listings -/

/-- A listing of a directory shows exactly the keys of the flat map with that parent, except the
directory itself, each once. -/
def ListsExactly (store : HierarchicalRecords V) (flat : CString → Option V) (dir : CString) :
    Prop :=
  (store.listed dir).Nodup ∧
    ∀ key, key ∈ store.listed dir ↔
      (flat key).isSome ∧ key ≠ dir ∧ findLastParentDir key = dir

/-- The keys of a directory's map are the stored keys with that parent. -/
theorem Refines.mem_listDir (href : Refines store flat) {dir : CString} {names : List CString}
    (hnames : store.hierarchicalMapListDir dir = some names) (key : CString) :
    key ∈ names ↔ (flat key).isSome ∧ key ≠ dir ∧ findLastParentDir key = dir := by
  obtain ⟨records, hdir, rfl⟩ := Option.map_eq_some_iff.mp hnames
  have hkeys : key ∈ records.buffer.keys ↔ (records.get key).isSome := by
    rw [ExtTreeMap.mem_keys, ← ExtTreeMap.isSome_getElem?_iff_mem]
    rfl
  rw [List.mem_filter, hkeys, decide_eq_true_iff]
  constructor
  · rintro ⟨hsome, hne⟩
    have hparent := href.filed dir records key hdir hsome
    refine ⟨?_, hne, hparent⟩
    rw [← href.get, HierarchicalRecords.hierarchicalMapGet_eq, hparent, hdir]
    exact hsome
  · rintro ⟨hsome, hne, hparent⟩
    rw [← href.get, HierarchicalRecords.hierarchicalMapGet_eq, hparent, hdir] at hsome
    exact ⟨hsome, hne⟩

theorem nodup_listDir {dir : CString} {names : List CString}
    (hnames : store.hierarchicalMapListDir dir = some names) : names.Nodup := by
  obtain ⟨records, -, rfl⟩ := Option.map_eq_some_iff.mp hnames
  exact ExtTreeMap.nodup_keys.filter _

theorem Refines.nul_notMem (href : Refines store flat) {key : CString} (hsome : (flat key).isSome) :
    nul ∉ key := by
  rw [← href.get, HierarchicalRecords.hierarchicalMapGet_eq] at hsome
  cases hdir : store.getDirUnsafe (findLastParentDir key) with
  | none => simp [hdir] at hsome
  | some records =>
      rw [hdir] at hsome
      exact href.nul_free _ records key hdir hsome

/-- A directory is listed exactly if its keys fit into their places in the buffer. -/
theorem Refines.listsExactly_iff (href : Refines store flat) (dir : CString) :
    ListsExactly store flat dir ↔
      ∀ key, (flat key).isSome → key ≠ dir → findLastParentDir key = dir →
        key.length ≤ uriSize := by
  constructor
  · rintro ⟨-, hmem⟩ key hsome hne hparent
    exact length_le_of_mem_readSlots ((hmem key).mpr ⟨hsome, hne, hparent⟩)
  · intro hfits
    rw [ListsExactly, HierarchicalRecords.listed, HierarchicalRecords.listDirBuffer]
    cases hnames : store.hierarchicalMapListDir dir with
    | none =>
        have hdir : store.getDirUnsafe dir = none := Option.map_eq_none_iff.mp hnames
        refine ⟨List.nodup_nil, fun key => ?_⟩
        constructor
        · intro hmem
          cases hmem
        · rintro ⟨hsome, -, hparent⟩
          rw [← href.get, HierarchicalRecords.hierarchicalMapGet_eq, hparent, hdir] at hsome
          cases hsome
    | some names =>
        have hread : readSlots uriSize nul names.length (writeSlots uriSize nul names) = names := by
          apply readSlots_writeSlots
          · intro key hkey
            obtain ⟨hsome, hne, hparent⟩ := (href.mem_listDir hnames key).mp hkey
            exact hfits key hsome hne hparent
          · intro key hkey
            exact href.nul_notMem ((href.mem_listDir hnames key).mp hkey).1
        change (readSlots uriSize nul names.length (writeSlots uriSize nul names)).Nodup ∧ _
        rw [hread]
        refine ⟨nodup_listDir hnames, fun key => ?_⟩
        change key ∈ readSlots uriSize nul names.length (writeSlots uriSize nul names) ↔ _
        rw [hread]
        exact href.mem_listDir hnames key

/-- After any sequence of calls: every lookup was answered as by the flat map, and a directory is
listed exactly if its keys fit into their places in the buffer. -/
theorem store_refines_flat (isDirectory : V → Bool) (root : CString) (calls : List (StoreCall V)) :
    StoreCall.answers isDirectory (HierarchicalRecords.init root) calls =
        StoreCall.flatAnswers (fun _ => none) calls ∧
      ∀ dir, ListsExactly (StoreCall.after isDirectory (HierarchicalRecords.init root) calls)
          (StoreCall.flatAfter (fun _ => none) calls) dir ↔
        ∀ key, (StoreCall.flatAfter (fun _ => none) calls key).isSome → key ≠ dir →
          findLastParentDir key = dir → key.length ≤ uriSize := by
  have hinit := refines_init (V := V) root
  exact ⟨hinit.answers_eq calls, fun dir => (hinit.after calls).listsExactly_iff dir⟩

/-- A URI of 255 characters. -/
def longUri : CString :=
  imssRoot ++ List.replicate 248 'a'

/-- Its block 0. -/
def longKey : StoreKey :=
  ⟨blockKey longUri 0, ⟨longUri, List.prefix_append _ _, by decide, .inr ⟨0, rfl⟩⟩⟩

/-- Block 0 of a file whose URI has 255 characters is stored, and no listing of the root shows
it. -/
theorem not_listsExactly_longKey :
    (StoreCall.flatAfter (fun _ => none) [StoreCall.put longKey () true] longKey.1).isSome ∧
      findLastParentDir longKey.1 = imssRoot ∧
      longKey.1 ∉ (StoreCall.after (fun _ => false) (HierarchicalRecords.init imssRoot)
        [StoreCall.put longKey () true]).listed imssRoot ∧
      ¬ ListsExactly (StoreCall.after (fun _ => false) (HierarchicalRecords.init imssRoot)
          [StoreCall.put longKey () true])
        (StoreCall.flatAfter (fun _ => none) [StoreCall.put longKey () true]) imssRoot := by
  have hsome : (StoreCall.flatAfter (fun _ => none) [StoreCall.put longKey () true]
      longKey.1).isSome := by
    simp [StoreCall.flatAfter, StoreCall.flatCall]
  have hparent : findLastParentDir longKey.1 = imssRoot := by decide +kernel
  have habsent : longKey.1 ∉ (StoreCall.after (fun _ => false) (HierarchicalRecords.init imssRoot)
      [StoreCall.put longKey () true]).listed imssRoot := by
    intro hmem
    exact absurd (length_le_of_mem_readSlots hmem) (by decide +kernel)
  refine ⟨hsome, hparent, habsent, fun hlists => habsent ?_⟩
  exact (hlists.2 longKey.1).mpr ⟨hsome, by decide +kernel, hparent⟩

end Hercules
