import PegaFlow.Lib.Copy

/-!
# Merged copies

`pegaflow-core/src/transfer/memcpy.rs`: the copies of a transfer are merged before they go to the
stream, which performs what it is given one after another.  A copy joins the run in front of it if
it continues it both on the device and on the host.

Addresses are numbers, so a range does not wrap around.  Copies may overlap in any way: only copies
that follow each other are merged, and the merged range is written in their order.
-/

namespace PegaFlow.Engine

/-- A range of device memory and one of host memory, of the same size. -/
structure Merged where
  device : Nat
  host : Nat
  size : Nat

/-- The loops of `merge`: a run that starts at `start` has `size` bytes so far. -/
def mergeRun (start : Merged) (size : Nat) : List Merged → List Merged
  | [] => [{ start with size }]
  | next :: copies =>
    if start.device + size = next.device ∧ start.host + size = next.host then
      mergeRun start (size + next.size) copies
    else { start with size } :: mergeRun next next.size copies

def merge : List Merged → List Merged
  | [] => []
  | start :: copies => mergeRun start start.size copies

/-- The host and the device memory. -/
abbrev Memories (β : Type) := Memory Unit β × Memory Unit β

section

variable {β : Type}

variable (mems : Memories β) (copies : List Merged)

/-- `MemcpyBackend::h2d`, given the ranges to copy. -/
def copyToDevice : Memories β :=
  (mems.1, Copy.runAll mems.1 mems.2 (copies.map fun c => ⟨(), c.host, (), c.device, c.size⟩))

/-- `MemcpyBackend::d2h`, given the ranges to copy. -/
def copyToHost : Memories β :=
  (Copy.runAll mems.2 mems.1 (copies.map fun c => ⟨(), c.device, (), c.host, c.size⟩), mems.2)

/-- A run of copies does what its copies do, in either direction. -/
theorem runAll_mergeRun (src dst : Memory Unit β) {copy : Merged → Copy Unit Unit}
    (hcopy : ∀ dst (c : Merged) n,
      Copy.run src (Copy.run src dst (copy c)) (copy ⟨c.device + c.size, c.host + c.size, n⟩) =
        Copy.run src dst (copy { c with size := c.size + n }))
    (start : Merged) (size : Nat) (copies : List Merged) :
    Copy.runAll src dst ((mergeRun start size copies).map copy) =
      Copy.runAll src dst (({ start with size } :: copies).map copy) := by
  induction copies generalizing start size dst with
  | nil => rfl
  | cons next copies ih =>
    unfold mergeRun
    split
    next hn =>
      obtain ⟨_, _, n⟩ := next
      obtain ⟨rfl, rfl⟩ := hn
      refine (ih dst start (size + n)).trans ?_
      exact congrArg (List.foldl _ · _) (hcopy dst { start with size } n).symm
    · exact ih _ next next.size

/-- The merged ranges leave both memories as the copies do, one after another. -/
theorem merge_copies_alike (mems : Memories β) (copies : List Merged) :
    copyToDevice mems (merge copies) = copyToDevice mems copies ∧
      copyToHost mems (merge copies) = copyToHost mems copies := by
  cases copies with
  | nil => exact ⟨rfl, rfl⟩
  | cons start copies =>
    have hdevice := runAll_mergeRun mems.1 mems.2
      (fun _ c n => Copy.run_run () () c.host c.device c.size n) start start.size copies
    have hhost := runAll_mergeRun mems.2 mems.1
      (fun _ c n => Copy.run_run () () c.device c.host c.size n) start start.size copies
    exact ⟨congrArg (Prod.mk mems.1) hdevice, congrArg (Prod.mk · mems.2) hhost⟩

end

end PegaFlow.Engine
