import Docstore.Proofs.Program.Cache
import Docstore.Proofs.Program.Request

set_option autoImplicit false

namespace Docstore

theorem byteList_loop (bytes : ByteArray) (i : Nat) (read : List UInt8) :
    ByteArray.toList.loop bytes i read = read.reverse ++ bytes.data.toList.drop i := by
  fun_induction ByteArray.toList.loop bytes i read with
  | case1 i read more ih =>
      have inside : i < bytes.data.toList.length := by simpa using more
      have byte : bytes.get! i = bytes.data.toList[i] := getElem!_pos bytes.data i more
      rw [ih, List.drop_eq_getElem_cons inside, byte, List.reverse_cons, List.append_assoc,
        List.singleton_append]
  | case2 i read done =>
      rw [List.drop_eq_nil_of_le (by simpa using Nat.le_of_not_lt done), List.append_nil]

theorem byteList_eq (bytes : ByteArray) : bytes.toList = bytes.data.toList := by
  rw [ByteArray.toList, byteList_loop, List.reverse_nil, List.nil_append, List.drop_zero]

theorem utf8_injective {text text' : String} (same : text.toUTF8.toList = text'.toUTF8.toList) :
    text = text' := by
  rw [byteList_eq, byteList_eq, Array.toList_inj, ← ByteArray.ext_iff] at same
  exact String.toByteArray_inj.1 same

namespace Request

variable {asked other : Request}

def message (request : Request) : List UInt8 :=
  request.text.toUTF8.toList

theorem message_injective (same : asked.message = other.message) : asked = other :=
  text_injective (utf8_injective same)

def Collide (asked other : Request) : Prop :=
  asked.message ≠ other.message ∧ Digest.ofBytes asked.message = Digest.ofBytes other.message

theorem eq_or_collide (same : asked.digest = other.digest) :
    asked = other ∨ Collide asked other := by
  by_cases messages : asked.message = other.message
  · exact .inl (message_injective messages)
  · exact .inr ⟨messages, same⟩

end Request

/-- What can be asked of a cache. -/
inductive CacheCall
  | get (request : Request)
  | insert (request : Request) (program : Program)
  | getOrInsert (request : Request) (compiled : Except Error Program)
  | clear

namespace CacheCall

def asked : CacheCall → Option Request
  | get request | getOrInsert request _ => some request
  | insert .. | clear => none

def Offers (request : Request) (program : Program) : CacheCall → Prop
  | insert own kept => own = request ∧ kept = program
  | getOrInsert own compiled => own = request ∧ compiled = .ok program
  | get _ | clear => False

end CacheCall

namespace ProgramCache

variable {cache : ProgramCache} {holds : Digest → Program → Prop}

/-- The program that a call is answered with, if any, and the cache after it. -/
def perform (cache : ProgramCache) : CacheCall → Option Program × ProgramCache
  | .get request => cache.get request.digest
  | .insert request program => (none, cache.insert request.digest program)
  | .getOrInsert request compiled =>
    let (answer, after) := cache.getOrInsert request.digest compiled
    (answer.toOption, after)
  | .clear => (none, cache.clear)

def performAll (cache : ProgramCache) (calls : List CacheCall) : ProgramCache :=
  calls.foldl (fun cache call => (cache.perform call).2) cache

theorem ok_of_toOption {answer : Except Error Program} {program : Program}
    (given : answer.toOption = some program) : answer = .ok program := by
  cases answer with
  | error error => cases given
  | ok other => rw [Option.some.inj given]

/-- If what a call offers is as it should be, then so is its answer, and all that is kept after. -/
theorem perform_keeps (keeps : cache.Keeps holds) (call : CacheCall)
    (offered : ∀ request program, call.Offers request program → holds request.digest program) :
    (cache.perform call).2.Keeps holds ∧
      ∀ program, (cache.perform call).1 = some program →
        ∃ request, call.asked = some request ∧ holds request.digest program := by
  cases call with
  | get request =>
      obtain ⟨after, answered⟩ := get_spec keeps request.digest
      exact ⟨after, fun program answer => ⟨request, rfl, answered program answer⟩⟩
  | insert request program =>
      have held := offered request program ⟨rfl, rfl⟩
      exact ⟨keeps.put held _ _, fun _ absent => by cases absent⟩
  | getOrInsert request compiled =>
      obtain ⟨after, answered, -⟩ := getOrInsert_spec keeps request.digest
        fun program ok => offered request program ⟨rfl, ok⟩
      refine ⟨after, fun program answer => ⟨request, rfl, answered program ?_⟩⟩
      exact ok_of_toOption answer
  | clear => exact ⟨Keeps.clear cache, fun _ absent => by cases absent⟩

theorem performAll_keeps : ∀ (calls : List CacheCall) {cache : ProgramCache}, cache.Keeps holds →
    (∀ call ∈ calls, ∀ request program, call.Offers request program →
      holds request.digest program) →
    (cache.performAll calls).Keeps holds
  | [], _, keeps, _ => keeps
  | call :: calls, _, keeps, offered => by
      have first := perform_keeps keeps call (offered call List.mem_cons_self)
      exact performAll_keeps calls first.1 fun call there =>
        offered call (List.mem_cons_of_mem _ there)

/-- Different requests have different messages, whether for queries or for mutations. A call that
is answered after any others has its program from a call with the same request, or else with one
that collides. -/
theorem programs_kept_apart :
    (∀ p q c d, (Request.query p c).message = (Request.query q d).message ↔ p = q ∧ c = d) ∧
      (∀ m n, (Request.mutation m).message = (Request.mutation n).message ↔ m = n) ∧
      (∀ p c m, (Request.query p c).message ≠ (Request.mutation m).message) ∧
      ∀ capacity cache, create capacity = .ok cache → ∀ calls call program,
        ((cache.performAll calls).perform call).1 = some program →
        ∃ asked other, call.asked = some asked ∧
          (∃ offer ∈ call :: calls, offer.Offers other program) ∧
          (other = asked ∨ Request.Collide other asked) := by
  refine ⟨fun p q c d => ⟨fun same => ?_, ?_⟩, fun m n => ⟨fun same => ?_, ?_⟩,
    fun p c m same => ?_, ?_⟩
  · exact Request.query.inj (Request.message_injective same)
  · rintro ⟨rfl, rfl⟩
    rfl
  · exact Request.mutation.inj (Request.message_injective same)
  · rintro rfl
    rfl
  · cases Request.message_injective same
  · intro capacity cache created calls call program answer
    -- what is kept under a digest was offered for a request that has it
    let holds : Digest → Program → Prop := fun digest program =>
      ∃ other, (∃ offer ∈ call :: calls, offer.Offers other program) ∧ other.digest = digest
    have kept : (cache.performAll calls).Keeps holds :=
      performAll_keeps calls (keeps_create created) fun offer there request program offers =>
        ⟨request, ⟨offer, List.mem_cons_of_mem _ there, offers⟩, rfl⟩
    obtain ⟨-, answered⟩ := perform_keeps kept call fun request program offers =>
      ⟨request, ⟨call, List.mem_cons_self, offers⟩, rfl⟩
    obtain ⟨asked, asks, other, offered, digests⟩ := answered program answer
    exact ⟨asked, other, asks, offered, Request.eq_or_collide digests⟩

/-- What a cache of one has for `{"a": 1.0}`, kept after a program for `{"a": 1}`, was kept for
it: the messages of the two differ. -/
theorem one_and_one_point_apart :
    let whole := Json.object [("a", .number (.int 1 (by decide) (by decide)))]
    let pointed := Json.object
      [("a", .number (.float (.ofInt 1) (Binary64.isFinite_ofInt (by decide))))]
    let first := Request.query whole ⟨none, none⟩
    let second := Request.query pointed ⟨none, none⟩
    let calls : List CacheCall := [.insert first [.halt], .getOrInsert second (.ok [.halt, .halt])]
    ∃ cache, create 1 = .ok cache ∧
      ((cache.performAll calls).perform (.get second)).1 = some [.halt, .halt] ∧
      first.message ≠ second.message ∧
      ∃ asked other, (CacheCall.get second).asked = some asked ∧
        (∃ offer ∈ .get second :: calls, offer.Offers other [.halt, .halt]) ∧
        (other = asked ∨ Request.Collide other asked) := by
  intro whole pointed first second calls
  have created : create 1 = .ok ⟨.empty 1, 0, 0⟩ := rfl
  have differ : second.digest ≠ first.digest := by decide +kernel
  have answer : ((performAll ⟨.empty 1, 0, 0⟩ calls).perform (.get second)).1 =
      some [.halt, .halt] := by
    simp [calls, performAll, perform, insert, getOrInsert, get, Recent.touch, Recent.find?,
      Recent.put, Recent.drop, Recent.empty, differ.symm]
  refine ⟨_, created, answer, fun same => ?_, ?_⟩
  · have values := ((programs_kept_apart.1 whole pointed _ _).1 same).1
    simp [whole, pointed] at values
  · exact programs_kept_apart.2.2.2 1 _ created calls (.get second) _ answer

end ProgramCache

end Docstore
