import Mathlib.Order.Bounds.Basic
import PegaFlow.MetaServer.Sessions

/-!
# Per-node prefixes

`query_prefix_blocks` of `pegaflow-metaserver/src/service.rs`.  The handler asks the store for the
longest prefix of the hashes with at least one live owner each, and walks over it once.  For every
node it keeps a counter, which goes up at position `i` only if it has gone up at every position
before.  At the end a counter is the length of the longest prefix that its node owns.

The handler refuses an empty list.  The counters are `u32`, and the position is cast to `u32` where
it is compared, so that a list of `2 ^ 32` hashes can bring a counter back to zero.
-/

namespace PegaFlow.MetaServer

open List AList

structure NodePrefixResult where
  node : Node
  prefixLen : UInt32
deriving DecidableEq, Repr

/-! ## The counters -/

/-- Extend a counter only if every hash before this one was on the node as well. -/
def extendCount (i : Nat) (count : UInt32) : UInt32 :=
  if count = UInt32.ofNat i then count + 1 else count

def extendNode (i : Nat) (nodePrefix : Table Node UInt32) (node : Node) : Table Node UInt32 :=
  nodePrefix.insert node (extendCount i ((nodePrefix.lookup node).getD 0))

/-- The loop over the entries, from position `i` on. -/
def extendEntries : Nat → Table Node UInt32 → List PrefixEntry → Table Node UInt32
  | _, nodePrefix, [] => nodePrefix
  | i, nodePrefix, entry :: entries =>
    extendEntries (i + 1) (entry.nodes.foldl (extendNode i) nodePrefix) entries

def BlockHashStore.queryPrefixBlocks (c : StoreConfig) (s : BlockHashStore) (nameSpace : String)
    (hashes : List BlockHash) (now : Nat) : Except String (List NodePrefixResult) :=
  if hashes.isEmpty then .error "block_hashes cannot be empty"
  else
    let nodePrefix := extendEntries 0 ∅ (s.queryPrefix c nameSpace now hashes)
    .ok ((nodePrefix.entries.filter fun e => decide (0 < e.2)).map fun e => ⟨e.1, e.2⟩)

/-- The number of entries in a row that list the node, from the first one on. -/
def leading (node : Node) (entries : List PrefixEntry) : Nat :=
  (entries.takeWhile fun entry => decide (node ∈ entry.nodes)).length

section

variable {i : Nat} {nodePrefix : Table Node UInt32} {node : Node} {entries : List PrefixEntry}

theorem extendCount_self (i : Nat) : extendCount i (UInt32.ofNat i) = UInt32.ofNat (i + 1) := by
  rw [extendCount, if_pos rfl, UInt32.ofNat_add]
  rfl

theorem extendCount_idem (i : Nat) (count : UInt32) :
    extendCount i (extendCount i count) = extendCount i count := by
  by_cases h : count = UInt32.ofNat i
  · subst h
    rw [extendCount_self, extendCount, if_neg]
    rw [UInt32.ofNat_add]
    simp
  · have hsm : extendCount i count = count := if_neg h
    rw [hsm, hsm]

theorem lookup_foldl_extendNode (nodes : List Node) :
    ((nodes.foldl (extendNode i) nodePrefix).lookup node).getD 0 =
      if node ∈ nodes then extendCount i ((nodePrefix.lookup node).getD 0)
      else (nodePrefix.lookup node).getD 0 := by
  induction nodes generalizing nodePrefix with
  | nil => rfl
  | cons n nodes ih =>
    rw [foldl_cons, ih, extendNode]
    by_cases hn : node = n
    · subst hn
      simp [extendCount_idem]
    · simp [hn]

/-- A node that no entry lists has no counter. -/
theorem extendEntries_none (hn : ∀ entry ∈ entries, node ∉ entry.nodes) :
    ((extendEntries i nodePrefix entries).lookup node).getD 0 = (nodePrefix.lookup node).getD 0 := by
  induction entries generalizing i nodePrefix with
  | nil => rfl
  | cons entry entries ih =>
    rw [forall_mem_cons] at hn
    rw [extendEntries, ih hn.2, lookup_foldl_extendNode, if_neg hn.1]

/-- The counter of a node that every entry lists, around the end of `u32` if need be. -/
theorem extendEntries_all (hct : (nodePrefix.lookup node).getD 0 = UInt32.ofNat i)
    (hall : ∀ entry ∈ entries, node ∈ entry.nodes) :
    ((extendEntries i nodePrefix entries).lookup node).getD 0 =
      UInt32.ofNat (i + entries.length) := by
  induction entries generalizing i nodePrefix with
  | nil => exact hct
  | cons entry entries ih =>
    rw [forall_mem_cons] at hall
    rw [extendEntries, ih _ hall.2, length_cons, Nat.add_right_comm, Nat.add_assoc]
    rw [lookup_foldl_extendNode, if_pos hall.1, hct, extendCount_self]

/-- A counter that was passed once stays where it is. -/
theorem extendEntries_passed (hbd : i + entries.length < 2 ^ 32)
    (hct : ((nodePrefix.lookup node).getD 0).toNat < i) :
    ((extendEntries i nodePrefix entries).lookup node).getD 0 = (nodePrefix.lookup node).getD 0 := by
  induction entries generalizing i nodePrefix with
  | nil => rfl
  | cons entry entries ih =>
    rw [length_cons] at hbd
    have hne : (nodePrefix.lookup node).getD 0 ≠ UInt32.ofNat i := by
      intro heq
      rw [heq, UInt32.toNat_ofNat_of_lt' (Nat.lt_of_le_of_lt (Nat.le_add_right i _) hbd)] at hct
      omega
    have hsm : ((entry.nodes.foldl (extendNode i) nodePrefix).lookup node).getD 0 =
        (nodePrefix.lookup node).getD 0 := by
      rw [lookup_foldl_extendNode, extendCount, if_neg hne, ite_self]
    rw [extendEntries, ih (by omega) (by rw [hsm]; omega), hsm]

/-- The counters count the entries in a row that list the node. -/
theorem extendEntries_leading (hbd : i + entries.length < 2 ^ 32)
    (hct : (nodePrefix.lookup node).getD 0 = UInt32.ofNat i) :
    ((extendEntries i nodePrefix entries).lookup node).getD 0 =
      UInt32.ofNat (i + leading node entries) := by
  induction entries generalizing i nodePrefix with
  | nil => exact hct
  | cons entry entries ih =>
    rw [length_cons] at hbd
    have hn : ((entry.nodes.foldl (extendNode i) nodePrefix).lookup node).getD 0 = _ :=
      lookup_foldl_extendNode entry.nodes
    by_cases hnd : node ∈ entry.nodes
    · rw [if_pos hnd, hct, extendCount_self] at hn
      have hlead : leading node (entry :: entries) = leading node entries + 1 := by
        simp [leading, hnd]
      rw [extendEntries, ih (by omega) hn, hlead, Nat.add_right_comm, Nat.add_assoc]
    · rw [if_neg hnd, hct] at hn
      have hlead : leading node (entry :: entries) = 0 := by simp [leading, hnd]
      -- The node is missing here, so the counter stays behind the position.
      have hps : (UInt32.ofNat i).toNat < i + 1 := by
        rw [UInt32.toNat_ofNat_of_lt' (Nat.lt_of_le_of_lt (Nat.le_add_right i _) hbd)]
        exact Nat.lt_succ_self i
      rw [extendEntries, extendEntries_passed (by omega) (hn ▸ hps), hn, hlead]
      rfl

end

/-! ## What the nodes own -/

/-- The longest prefix of a list whose members all meet a condition. -/
def LongestPrefix {α : Type} (P : α → Prop) (l : List α) (len : Nat) : Prop :=
  IsGreatest {k | k ≤ l.length ∧ ∀ a ∈ l.take k, P a} len

namespace LongestPrefix

variable {α : Type} {P : α → Prop} {a : α} {l : List α} {len : Nat}

theorem nil : LongestPrefix P [] 0 :=
  ⟨⟨le_rfl, by simp⟩, fun _ hk => hk.1⟩

theorem cons (ha : P a) (h : LongestPrefix P l len) : LongestPrefix P (a :: l) (len + 1) := by
  obtain ⟨⟨hle, hall⟩, hmax⟩ := h
  refine ⟨⟨Nat.succ_le_succ hle, by simpa [ha] using hall⟩, ?_⟩
  rintro (_ | k) ⟨hk, hpre⟩
  · exact Nat.zero_le _
  · rw [take_succ_cons, forall_mem_cons] at hpre
    exact Nat.succ_le_succ (hmax ⟨Nat.le_of_succ_le_succ hk, hpre.2⟩)

theorem of_not (ha : ¬ P a) : LongestPrefix P (a :: l) 0 := by
  refine ⟨⟨Nat.zero_le _, by simp⟩, ?_⟩
  rintro (_ | k) ⟨-, hpre⟩
  · exact le_rfl
  · exact absurd (hpre a (by simp)) ha

theorem of_forall (h : ∀ a ∈ l, P a) : LongestPrefix P l l.length :=
  ⟨⟨le_rfl, fun a ha => h a (mem_of_mem_take ha)⟩, fun _ hk => hk.1⟩

theorem le_length (h : LongestPrefix P l len) : len ≤ l.length := h.1.1

end LongestPrefix

namespace BlockHashStore

variable {c : StoreConfig} {s : BlockHashStore} {nameSpace : String} {now : Nat} {node : Node}
variable {hashes : List BlockHash}

/-- The node visibly owns the block of the hash. -/
def Owns (c : StoreConfig) (s : BlockHashStore) (nameSpace : String) (now : Nat) (node : Node)
    (hash : BlockHash) : Prop :=
  ∃ o, s.owner ⟨nameSpace, hash⟩ node = some o ∧ s.isOwnerVisible c node o now

theorem owns_iff {owners : Owners} {hash : BlockHash}
    (h : s.blocks.lookup ⟨nameSpace, hash⟩ = some owners) :
    s.Owns c nameSpace now node hash ↔ node ∈ s.liveNodes c owners now := by
  rw [mem_liveNodes, Owns, owner, h]
  rfl

/-- The entries of the store list the node as long as it owns the hashes. -/
theorem longestPrefix_leading :
    LongestPrefix (s.Owns c nameSpace now node) hashes
      (leading node (s.queryPrefix c nameSpace now hashes)) := by
  induction hashes with
  | nil => exact .nil
  | cons hash hashes ih =>
    unfold queryPrefix
    split
    next hnone =>
      refine .of_not ?_
      rintro ⟨o, ho, -⟩
      rw [owner, hnone] at ho
      cases ho
    next owners hows =>
      by_cases hn : node ∈ s.liveNodes c owners now
      · have hne : (s.liveNodes c owners now).isEmpty = false :=
          isEmpty_eq_false_iff_exists_mem.mpr ⟨node, hn⟩
        rw [if_neg (by simp [hne])]
        have hlead := LongestPrefix.cons ((owns_iff hows).mpr hn) ih
        simpa [leading, hn] using hlead
      · have hlead := LongestPrefix.of_not (l := hashes) (mt (owns_iff hows).mp hn)
        split
        · exact hlead
        · simpa [leading, hn] using hlead

theorem queryPrefix_length_le : (s.queryPrefix c nameSpace now hashes).length ≤ hashes.length := by
  induction hashes with
  | nil => exact le_rfl
  | cons hash hashes ih =>
    unfold queryPrefix
    split
    · exact Nat.zero_le _
    split
    · exact Nat.zero_le _
    · exact Nat.succ_le_succ ih

/-- The response of the handler, before it is known what the counters are. -/
theorem mem_queryPrefixBlocks {result : List NodePrefixResult}
    (h : s.queryPrefixBlocks c nameSpace hashes now = .ok result) :
    (result.map NodePrefixResult.node).Nodup ∧ ∀ node len, ⟨node, len⟩ ∈ result ↔
      0 < len ∧ ((extendEntries 0 ∅ (s.queryPrefix c nameSpace now hashes)).lookup node).getD 0
        = len := by
  unfold queryPrefixBlocks at h
  split at h
  · cases h
  cases h
  constructor
  · rw [map_map]
    exact (filter_sublist.map Sigma.fst).nodup (nodupKeys _)
  · intro node len
    simp only [mem_map, mem_filter, decide_eq_true_eq]
    constructor
    · rintro ⟨⟨n, len⟩, ⟨hm, hpos⟩, ⟨⟩⟩
      exact ⟨hpos, by rw [mem_lookup_iff.mpr hm]; rfl⟩
    · rintro ⟨hpos, hlen⟩
      cases hlk : (extendEntries 0 ∅ (s.queryPrefix c nameSpace now hashes)).lookup node with
      | none =>
        rw [hlk] at hlen
        subst hlen
        exact absurd hpos (UInt32.lt_irrefl 0)
      | some len' =>
        rw [hlk] at hlen
        cases hlen
        exact ⟨⟨node, len'⟩, ⟨mem_lookup_iff.mp hlk, hpos⟩, rfl⟩

/-- For a list of hashes that is not empty and shorter than `2 ^ 32`, the response lists the nodes
that own a prefix, each once, with the length of the longest prefix they own. -/
theorem queryPrefixBlocks_longest (c : StoreConfig) (s : BlockHashStore) (nameSpace : String)
    (now : Nat) (hashes : List BlockHash) (hne : hashes ≠ []) (hlength : hashes.length < 2 ^ 32) :
    ∃ result, s.queryPrefixBlocks c nameSpace hashes now = .ok result ∧
      (result.map NodePrefixResult.node).Nodup ∧
      ∀ node len, ⟨node, len⟩ ∈ result ↔
        0 < len ∧ LongestPrefix (s.Owns c nameSpace now node) hashes len.toNat := by
  have hok : ∃ result, s.queryPrefixBlocks c nameSpace hashes now = .ok result := by
    rw [queryPrefixBlocks, if_neg (by simpa using hne)]
    exact ⟨_, rfl⟩
  obtain ⟨result, hresult⟩ := hok
  obtain ⟨hnodup, hmem⟩ := mem_queryPrefixBlocks hresult
  refine ⟨result, hresult, hnodup, ?_⟩
  intro node len
  have hlongest : LongestPrefix (s.Owns c nameSpace now node) hashes _ := longestPrefix_leading
  have hshort : (s.queryPrefix c nameSpace now hashes).length < 2 ^ 32 :=
    Nat.lt_of_le_of_lt queryPrefix_length_le hlength
  have hlt : leading node (s.queryPrefix c nameSpace now hashes) < 2 ^ 32 :=
    Nat.lt_of_le_of_lt hlongest.le_length hlength
  rw [hmem, extendEntries_leading (by rwa [Nat.zero_add]) rfl, Nat.zero_add]
  refine and_congr_right fun _ => ?_
  constructor
  · rintro rfl
    rwa [UInt32.toNat_ofNat_of_lt' hlt]
  · intro h
    rw [hlongest.unique h, UInt32.ofNat_toNat]

/-! ## The lists that are excluded -/

/-- Node `a` owns one block, whose hash is `[1]`. -/
def oneOwner : BlockHashStore :=
  let s := (new.heartbeatNode ⟨10, 100⟩ "a" 0 0).1
  (s.insertHashes "ns" [[1]] "a" 0 0 0).1

/-- The hash of the owned block, `2 ^ 32` times. -/
def wrappingHashes : List BlockHash := List.replicate (2 ^ 32) [1]

/-- Node `a` and node `b` own the first block, and only `a` the second. -/
def twoOwners : BlockHashStore :=
  let s := (oneOwner.heartbeatNode ⟨10, 100⟩ "b" 1 0).1
  let s := (s.insertHashes "ns" [[1]] "b" 1 0 0).1
  (s.insertHashes "ns" [[2]] "a" 0 0 0).1

theorem queryPrefixBlocks_longest_two_owners :
    ∃ result, twoOwners.queryPrefixBlocks ⟨10, 100⟩ "ns" [[1], [2], [1]] 5 = .ok result ∧
      (result.map NodePrefixResult.node).Nodup ∧
      ∀ node len, ⟨node, len⟩ ∈ result ↔
        0 < len ∧ LongestPrefix (twoOwners.Owns ⟨10, 100⟩ "ns" 5 node) [[1], [2], [1]] len.toNat :=
  queryPrefixBlocks_longest _ _ _ _ _ (by decide) (by decide)

example : twoOwners.queryPrefixBlocks ⟨10, 100⟩ "ns" [[1], [2], [1]] 5 =
    .ok [⟨"a", 3⟩, ⟨"b", 1⟩] := by decide +kernel

theorem queryPrefix_replicate {hash : BlockHash} {owners : Owners}
    (h : s.blocks.lookup ⟨nameSpace, hash⟩ = some owners)
    (hl : s.liveNodes c owners now ≠ []) (n : Nat) :
    s.queryPrefix c nameSpace now (List.replicate n hash) =
      List.replicate n ⟨hash, s.liveNodes c owners now⟩ := by
  induction n with
  | zero => rfl
  | succ n ih => simp [replicate_succ, queryPrefix, h, hl, ih]

/-- A counter that has come back to zero is not listed. -/
theorem oneOwner_wrapped {n : Nat} (hpos : 0 < n) (hwrap : UInt32.ofNat n = 0) :
    oneOwner.queryPrefixBlocks ⟨10, 100⟩ "ns" (List.replicate n [1]) 5 = .ok [] := by
  have hows : oneOwner.blocks.lookup ⟨"ns", [1]⟩ = some ((∅ : Owners).insert "a" ⟨0, 0⟩) := rfl
  have hl : oneOwner.liveNodes ⟨10, 100⟩ ((∅ : Owners).insert "a" ⟨0, 0⟩) 5 = ["a"] := by
    decide
  have hes : oneOwner.queryPrefix ⟨10, 100⟩ "ns" 5 (replicate n [1]) =
      replicate n ⟨[1], ["a"]⟩ := by
    rw [queryPrefix_replicate hows (hl ▸ cons_ne_nil _ _), hl]
  have hne : replicate n ([1] : BlockHash) ≠ [] := by
    rw [Ne, replicate_eq_nil_iff]
    omega
  obtain ⟨result, hrs⟩ : ∃ result, oneOwner.queryPrefixBlocks ⟨10, 100⟩ "ns"
      (replicate n [1]) 5 = .ok result := by
    rw [queryPrefixBlocks, if_neg (by simpa using hne)]
    exact ⟨_, rfl⟩
  obtain ⟨-, hm⟩ := mem_queryPrefixBlocks hrs
  rw [hes] at hm
  rw [hrs]
  refine congrArg Except.ok (eq_nil_iff_forall_not_mem.mpr ?_)
  rintro ⟨node, len⟩ hin
  obtain ⟨hlen, hct⟩ := (hm node len).mp hin
  have hz : len = 0 := by
    by_cases hn : node = "a"
    · rw [extendEntries_all rfl (by simp [hn]), length_replicate, Nat.zero_add, hwrap] at hct
      exact hct.symm
    · rw [extendEntries_none (by simp [hn])] at hct
      exact hct.symm
  subst hz
  exact absurd hlen (UInt32.lt_irrefl 0)

/-- An empty list is refused, and a node that owns all of `2 ^ 32` hashes is not listed. -/
theorem prefix_refused_and_wrapped :
    oneOwner.queryPrefixBlocks ⟨10, 100⟩ "ns" [] 5 = .error "block_hashes cannot be empty" ∧
      oneOwner.queryPrefixBlocks ⟨10, 100⟩ "ns" wrappingHashes 5 = .ok [] ∧
      LongestPrefix (oneOwner.Owns ⟨10, 100⟩ "ns" 5 "a") wrappingHashes (2 ^ 32) := by
  have howns : oneOwner.Owns ⟨10, 100⟩ "ns" 5 "a" [1] := ⟨⟨0, 0⟩, by decide, by decide⟩
  have hall : LongestPrefix (oneOwner.Owns ⟨10, 100⟩ "ns" 5 "a") wrappingHashes _ :=
    .of_forall fun hash hhash => eq_of_mem_replicate hhash ▸ howns
  rw [wrappingHashes, length_replicate] at hall
  exact ⟨rfl, oneOwner_wrapped (by decide) (by decide), hall⟩

end BlockHashStore

end PegaFlow.MetaServer
