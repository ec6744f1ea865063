import Docstore.Program.Cache
import Docstore.Proofs.Fallible

set_option autoImplicit false

namespace Docstore
namespace ProgramCache

variable {cache : ProgramCache} {holds : Digest → Program → Prop}

def Keeps (cache : ProgramCache) (holds : Digest → Program → Prop) : Prop :=
  ∀ digest program, cache.programs.find? digest = some program → holds digest program

theorem Keeps.put {programs : Recent Digest Program} {hits misses : Nat}
    (keeps : Keeps ⟨programs, hits, misses⟩ holds) {key : Digest} {program : Program}
    (held : holds key program) (hits' misses' : Nat) :
    Keeps ⟨programs.put key program, hits', misses'⟩ holds := by
  intro digest other found
  have put := Recent.find?_put found
  by_cases same : key = digest
  · rw [if_pos same] at put
    rw [← same, put]
    exact held
  · rw [if_neg same] at put
    exact keeps digest other put

theorem Keeps.clear (cache : ProgramCache) : cache.clear.Keeps holds :=
  fun _ _ found => by cases found

theorem keeps_create {capacity : Nat} (created : create capacity = .ok cache) :
    cache.Keeps holds := by
  simp only [create, Recent.create?] at created
  split at created
  · next programs room =>
      split at room
      · cases room
        cases created
        exact fun _ _ found => by cases found
      · cases room
  · cases created

theorem get_spec (keeps : cache.Keeps holds) (key : Digest) :
    (cache.get key).2.Keeps holds ∧
      ∀ program, (cache.get key).1 = some program → holds key program := by
  cases found : cache.programs.find? key with
  | some program =>
      have held := keeps key program found
      simp only [get, Recent.touch, found]
      refine ⟨keeps.put held _ _, fun other same => ?_⟩
      rw [← Option.some.inj same]
      exact held
  | none =>
      simp only [get, Recent.touch, found]
      exact ⟨keeps, fun _ absent => by cases absent⟩

/-- What is answered was kept for the digest or is new, and a failure is that of the new one. -/
theorem getOrInsert_spec (keeps : cache.Keeps holds) (key : Digest)
    {compiled : Except Error Program}
    (new : ∀ program, compiled = .ok program → holds key program) :
    (cache.getOrInsert key compiled).2.Keeps holds ∧
      (∀ program, (cache.getOrInsert key compiled).1 = .ok program → holds key program) ∧
      ∀ error, (cache.getOrInsert key compiled).1 = .error error → compiled = .error error := by
  obtain ⟨kept, held⟩ := get_spec keeps key
  rw [getOrInsert]
  generalize cache.get key = got at kept held ⊢
  obtain ⟨_ | program, after⟩ := got
  · cases compiled with
    | error error => exact ⟨kept, (fun _ failed => by cases failed), fun other same => same⟩
    | ok program =>
        refine ⟨Keeps.put kept (new program rfl) _ _, fun other same => ?_,
          fun _ failed => by cases failed⟩
        exact new other same
  · refine ⟨kept, fun other same => ?_, fun _ failed => by cases failed⟩
    exact held other (congrArg some (Except.ok.inj same))

end ProgramCache

end Docstore
