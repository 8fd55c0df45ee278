import Mathlib
import PocketKernel.Proofs.Paging.Supplied

/-!
# Tables as finite maps

Under every root the tables are a map from pages to frames and rights. Calls that map pages are made
one after the other, over any of the roots, and the log of the calls with their answers says what is
mapped: under a root a page has what the last call gave it that was done. Main statement:
`tables_after_calls`, which also tells how many tables the supply handed out.
-/
namespace PocketKernel.Paging
open TableView TableMemory LawfulTableMemory

structure MapCall where
  root : UInt32
  va : UInt32
  pa : UInt32
  perms : Perms
  deriving DecidableEq

abbrev CallLog := List (MapCall × Except Fault Unit)

namespace MapCall
variable {M : Type} [TableMemory M]

def run (c : MapCall) : Action M Unit := mapPage c.root c.va c.pa c.perms

def answer (c : MapCall) (m : M) : Except Fault Unit :=
  match (c.run : Action M Unit) m with
  | .ok _ _ => .ok ()
  | .error e _ => .error e

def leaf (c : MapCall) : UInt32 := PageEntry.make c.pa c.perms.flags

end MapCall

def runCalls {M : Type} [TableMemory M] : List MapCall → CallLog → M → CallLog × M
  | [], past, m => (past, m)
  | c :: rest, past, m => runCalls rest ((c, c.answer m) :: past) (c.run.finalState m)

/-- The last call that was done for the page of an address under a root. -/
def lastMapped (past : CallLog) (root va : UInt32) : Option MapCall :=
  (past.find? fun call => call.2.isOk &&
    decide (root = call.1.root ∧ Vaddr.page va = Vaddr.page call.1.va)).map Prod.fst

theorem lastMapped_cons_ok (c : MapCall) (past : CallLog) (root va : UInt32) :
    lastMapped ((c, .ok ()) :: past) root va =
      if root = c.root ∧ Vaddr.page va = Vaddr.page c.va then some c
      else lastMapped past root va := by
  have done : (Except.ok () : Except Fault Unit).isOk = true := rfl
  unfold lastMapped
  rw [List.find?_cons]
  by_cases h : root = c.root ∧ Vaddr.page va = Vaddr.page c.va
  · simp only [h, done, and_self, decide_true, Bool.and_self, if_true, Option.map_some]
  · simp only [h, done, decide_false, Bool.and_false, if_false]

theorem lastMapped_cons_error (c : MapCall) (e : Fault) (past : CallLog) (root va : UInt32) :
    lastMapped ((c, .error e) :: past) root va = lastMapped past root va := by
  simp [lastMapped, Except.isOk, Except.toBool]

/-- The last call that was done is one of the log. -/
theorem mem_of_lastMapped {past : CallLog} {root va : UInt32} {c : MapCall}
    (h : lastMapped past root va = some c) : ∃ answer, (c, answer) ∈ past ∧ answer.isOk = true := by
  obtain ⟨⟨c', answer⟩, found, rfl⟩ := Option.map_eq_some_iff.1 h
  have good := List.find?_some found
  rw [Bool.and_eq_true] at good
  exact ⟨answer, List.mem_of_find?_eq_some found, good.1⟩

/-- The tables are the map that the log describes, and every call was done or refused. -/
structure Represents {M : Type} [TableMemory M] [LawfulTableMemory M] (roots : Set UInt32)
    (past : CallLog) (m : M) : Prop where
  forest : Forest roots m
  leaf : ∀ r ∈ roots, ∀ a, leafAt m r a = (lastMapped past r a).map MapCall.leaf
  linked : ∀ r ∈ roots, ∀ a, Linked m r a ↔
    ∃ b, Vaddr.directoryIndex b = Vaddr.directoryIndex a ∧ (lastMapped past r b).isSome
  answers : ∀ c answer, (c, answer) ∈ past →
    answer = .ok () ∧ Vaddr.aligned c.va = true ∧ Vaddr.aligned c.pa = true ∨
      answer = .error (.refused (.unalignedVaddr c.va)) ∨
      answer = .error (.refused (.unalignedPaddr c.pa)) ∨ answer = .error (.refused .outOfFrames)

namespace Represents
variable {M : Type} [TableMemory M] [LawfulTableMemory M] {roots : Set UInt32} {past : CallLog}
  {m : M}

/-- Roots whose pages are zero map nothing. -/
theorem of_zero (good : Good m) (ready : ∀ r ∈ roots, Ready m r)
    (zero : ∀ r ∈ roots, ∀ i : UInt32, i.toNat < 1024 → word m r i = 0) :
    Represents roots [] m := by
  have missing : ∀ r ∈ roots, ∀ a, ¬ Linked m r a := by
    intro r hr a
    rw [Linked, zero r hr _ (Vaddr.directoryIndex_lt a)]
    decide
  refine ⟨⟨good, ready, fun r hr i hi valid => ?_, fun r hr r' hr' i i' hi hi' valid => ?_⟩,
    fun r hr a => ?_, fun r hr a => ?_, fun c answer made => ?_⟩
  · rw [zero r hr i hi] at valid
    cases valid
  · rw [zero r hr i hi] at valid
    cases valid
  · rw [leafAt, if_neg (missing r hr a)]
    rfl
  · exact ⟨fun there => absurd there (missing r hr a), by rintro ⟨_, _, ⟨⟩⟩⟩
  · cases made

/-- One call more. -/
theorem call (h : Represents roots past m) (c : MapCall) (hr : c.root ∈ roots) :
    Represents roots ((c, c.answer m) :: past) (c.run.finalState m) := by
  rcases h.forest.mapPage_cases hr c.va c.pa c.perms with
    ⟨cause, m', refused, keeps, why⟩ | ⟨hva, hpa, m₁, m', -, -, done, maps⟩
  · have answer : c.answer m = .error (.refused cause) := by
      simp only [MapCall.answer, MapCall.run, refused]
    have final : c.run.finalState m = m' := by
      simp only [Action.finalState, MapCall.run, refused]
    obtain ⟨forest, leaves⟩ := h.forest.keeps keeps
    rw [answer, final]
    refine ⟨forest, fun r hr a => ?_, fun r hr a => ?_, ?_⟩
    · rw [leaves r hr a, h.leaf r hr a, lastMapped_cons_error]
    · simp only [lastMapped_cons_error]
      rw [Linked, keeps.word (h.forest.root r hr) (Vaddr.directoryIndex_lt a)]
      exact h.linked r hr a
    · rintro c' answer' (- | ⟨_, older⟩)
      · rcases why with ⟨rfl | rfl, -⟩ | ⟨rfl, -⟩
        · exact .inr (.inl rfl)
        · exact .inr (.inr (.inl rfl))
        · exact .inr (.inr (.inr rfl))
      · exact h.answers c' answer' older
  · have answer : c.answer m = .ok () := by
      simp only [MapCall.answer, MapCall.run, done]
    have final : c.run.finalState m = m' := by
      simp only [Action.finalState, MapCall.run, done]
    rw [answer, final]
    refine ⟨maps.forest, fun r hr a => ?_, fun r hr a => ?_, ?_⟩
    · rw [maps.leaf r hr a, lastMapped_cons_ok]
      split
      next => rfl
      next => exact h.leaf r hr a
    · rw [maps.linked r hr a, h.linked r hr a]
      simp only [lastMapped_cons_ok]
      constructor
      · rintro (⟨b, index, mapped⟩ | ⟨rfl, index⟩)
        · refine ⟨b, index, ?_⟩
          split
          · rfl
          · exact mapped
        · exact ⟨c.va, index.symm, by simp⟩
      · rintro ⟨b, index, mapped⟩
        split at mapped
        next new => exact .inr ⟨new.1, index ▸ (Vaddr.page_eq_iff.1 new.2).1⟩
        next => exact .inl ⟨b, index, mapped⟩
    · rintro c' answer' (- | ⟨_, older⟩)
      · exact .inl ⟨rfl, hva, hpa⟩
      · exact h.answers c' answer' older

theorem run (h : Represents roots past m) (calls : List MapCall)
    (hc : ∀ c ∈ calls, c.root ∈ roots) :
    Represents roots (runCalls calls past m).1 (runCalls calls past m).2 := by
  induction calls generalizing past m with
  | nil => exact h
  | cons c rest ih =>
    exact ih (h.call c (hc c List.mem_cons_self)) fun c' hc' => hc c' (List.mem_cons_of_mem _ hc')

/-- What the walks of the page-table code find. -/
theorem walks (h : Represents roots past m) {r : UInt32} (hr : r ∈ roots) (va : UInt32) :
    translate m r va = .ok ((lastMapped past r va).map fun c => c.pa + Vaddr.offset va) ∧
      leafFlags m r va = .ok ((lastMapped past r va).map fun c => c.perms.flags) := by
  have found := h.forest.leaf?_eq hr va
  rw [h.leaf r hr va] at found
  unfold translate leafFlags
  rw [found]
  cases last : lastMapped past r va with
  | none => exact ⟨rfl, rfl⟩
  | some c =>
    have aligned : Vaddr.aligned c.pa = true := by
      obtain ⟨answer, member, done⟩ := mem_of_lastMapped last
      rcases h.answers c answer member with ⟨-, -, hpa⟩ | rfl | rfl | rfl
      · exact hpa
      all_goals cases done
    refine ⟨?_, ?_⟩
    · change Except.ok (some (PageEntry.frame c.leaf + Vaddr.offset va)) = _
      rw [MapCall.leaf, PageEntry.frame_make aligned c.perms.flags_lt]
      rfl
    · change Except.ok (some (PageEntry.flags c.leaf)) = _
      rw [MapCall.leaf, PageEntry.flags_make c.perms.flags_lt]
      rfl

/-- A call that is refused changes no translation. -/
theorem walks_of_refused (h : Represents roots past m) {c : MapCall} (hc : c.root ∈ roots)
    {e : Fault} (refused : c.answer m = .error e) {r : UInt32} (hr : r ∈ roots) (va : UInt32) :
    translate (c.run.finalState m) r va = translate m r va ∧
      leafFlags (c.run.finalState m) r va = leafFlags m r va := by
  have before := h.walks hr va
  have after := (h.call c hc).walks hr va
  rw [refused, lastMapped_cons_error] at after
  exact ⟨after.1.trans before.1.symm, after.2.trans before.2.symm⟩

end Represents

/-! ## The tables that were handed out -/

section Accounts
variable {M : Type} [TableMemory M]

theorem runCalls_supplied (calls : List MapCall) (past : CallLog) (s : Supplied M) :
    (runCalls calls past s).1 = (runCalls calls past s.memory).1 ∧
      (runCalls calls past s).2.memory = (runCalls calls past s.memory).2 := by
  induction calls generalizing past s with
  | nil => exact ⟨rfl, rfl⟩
  | cons c rest ih =>
    unfold runCalls
    rcases Supplied.erases_mapPage c.root c.va c.pa c.perms s with
      ⟨⟨⟩, t, recorded, plain⟩ | ⟨e, t, recorded, plain⟩
    all_goals
      simp only [MapCall.answer, MapCall.run, Action.finalState, recorded, plain]
      exact ih _ t

variable [LawfulTableMemory M]

/-- The tables that were handed out are each linked in one place; `owners` are these places, the
last one first, each a root with an index in its directory. -/
structure Accounts (roots : Set UInt32) (s : Supplied M) (owners : List (UInt32 × UInt32)) :
    Prop where
  nodup : owners.Nodup
  mem : ∀ r i, (r, i) ∈ owners ↔ r ∈ roots ∧ ∃ a, Vaddr.directoryIndex a = i ∧ Linked s r a
  handed : s.handed = owners.map fun owner => PageEntry.frame (word s owner.1 owner.2)

namespace Accounts
variable {roots : Set UInt32} {s : Supplied M} {owners : List (UInt32 × UInt32)}

/-- The places stay when their entries do. -/
theorem of_same {t : Supplied M} (acc : Accounts roots s owners)
    (linked : ∀ r ∈ roots, ∀ a, Linked t r a ↔ Linked s r a)
    (entry : ∀ r ∈ roots, ∀ a, Linked s r a →
      word t r (Vaddr.directoryIndex a) = word s r (Vaddr.directoryIndex a))
    (handed : t.handed = s.handed) : Accounts roots t owners := by
  refine ⟨acc.nodup, fun r i => ?_, ?_⟩
  · rw [acc.mem r i]
    refine and_congr_right fun hr => exists_congr fun a => and_congr_right ?_
    intro _
    exact (linked r hr a).symm
  · rw [handed, acc.handed]
    refine List.map_congr_left ?_
    rintro ⟨r, i⟩ place
    obtain ⟨hr, a, rfl, there⟩ := (acc.mem r i).1 place
    rw [entry r hr a there]

theorem call (acc : Accounts roots s owners) (h : Forest roots s) (c : MapCall)
    (hr : c.root ∈ roots) : ∃ owners, Accounts roots (c.run.finalState s) owners := by
  rcases h.mapPage_cases hr c.va c.pa c.perms with
    ⟨cause, t, refused, keeps, why⟩ | ⟨-, -, s₁, t, found, stored, done, maps⟩
  · have final : c.run.finalState s = t := by
      simp only [Action.finalState, MapCall.run, refused]
    have handed : t.handed = s.handed := by
      rcases why with ⟨-, rfl⟩ | ⟨-, out⟩
      · rfl
      · exact Supplied.handed_of_refused out
    have entry : ∀ r ∈ roots, ∀ a,
        word t r (Vaddr.directoryIndex a) = word s r (Vaddr.directoryIndex a) :=
      fun r hr a => keeps.word (h.root r hr) (Vaddr.directoryIndex_lt a)
    rw [final]
    refine ⟨owners, acc.of_same (fun r hr a => ?_) (fun r hr a _ => entry r hr a) handed⟩
    rw [Linked, entry r hr a, Linked]
  have final : c.run.finalState s = t := by
    simp only [Action.finalState, MapCall.run, done]
  have handed :=
    (Supplied.handed_storeWord stored).trans (Supplied.handed_directoryEntry h hr found)
  rw [final]
  by_cases linked : Linked s c.root c.va
  · rw [if_pos linked] at handed
    refine ⟨owners, acc.of_same (fun r hr a => ?_) maps.entry handed⟩
    rw [maps.linked r hr a]
    refine ⟨fun there => ?_, .inl⟩
    rcases there with there | ⟨rfl, index⟩
    · exact there
    · rwa [Linked, index]
  · rw [if_neg linked] at handed
    refine ⟨(c.root, Vaddr.directoryIndex c.va) :: owners, ?_, fun r i => ?_, ?_⟩
    · refine List.nodup_cons.2 ⟨fun old => ?_, acc.nodup⟩
      obtain ⟨-, a, index, there⟩ := (acc.mem _ _).1 old
      rw [Linked, index] at there
      exact linked there
    · rw [List.mem_cons, acc.mem r i, Prod.mk.injEq]
      constructor
      · rintro (⟨rfl, rfl⟩ | ⟨hr', a, index, there⟩)
        · exact ⟨hr, c.va, rfl, (maps.linked _ hr _).2 (.inr ⟨rfl, rfl⟩)⟩
        · exact ⟨hr', a, index, (maps.linked r hr' a).2 (.inl there)⟩
      · rintro ⟨hr', a, index, there⟩
        rcases (maps.linked r hr' a).1 there with old | ⟨same, new⟩
        · exact .inr ⟨hr', a, index, old⟩
        · exact .inl ⟨same, index.symm.trans new⟩
    · rw [handed, List.map_cons, acc.handed]
      refine congrArg (_ :: ·) (List.map_congr_left ?_)
      rintro ⟨r, i⟩ place
      obtain ⟨hr', a, rfl, there⟩ := (acc.mem r i).1 place
      rw [maps.entry r hr' a there]

theorem run (acc : Accounts roots s owners) {past : CallLog} (h : Represents roots past s)
    (calls : List MapCall) (hc : ∀ c ∈ calls, c.root ∈ roots) :
    ∃ owners, Accounts roots (runCalls calls past s).2 owners := by
  induction calls generalizing past s owners with
  | nil => exact ⟨owners, acc⟩
  | cons c rest ih =>
    have hr := hc c List.mem_cons_self
    obtain ⟨owners, acc⟩ := acc.call h.forest c hr
    exact ih acc (h.call c hr) fun c' hc' => hc c' (List.mem_cons_of_mem _ hc')

end Accounts

/-- After any calls on roots that began as zeros, an address under a root translates as the last
call for its page that was done says, and to nothing when there was none. A call is done or refused,
and a refusal changes no translation. The supply handed out one table for each root and directory
index below which anything is mapped: `handed` lists the tables, and `owners` the places. -/
theorem tables_after_calls {m : M} {roots : Set UInt32} (good : Good m)
    (ready : ∀ r ∈ roots, Ready m r)
    (zero : ∀ r ∈ roots, ∀ i : UInt32, i.toNat < 1024 → word m r i = 0)
    (calls : List MapCall) (hc : ∀ c ∈ calls, c.root ∈ roots) :
    let log := (runCalls calls [] m).1
    let ended := (runCalls calls [] m).2
    (∀ r ∈ roots, ∀ va,
      translate ended r va = .ok ((lastMapped log r va).map fun c => c.pa + Vaddr.offset va) ∧
        leafFlags ended r va = .ok ((lastMapped log r va).map fun c => c.perms.flags)) ∧
    (∀ c answer, (c, answer) ∈ log → answer = .ok () ∨
      answer = .error (.refused (.unalignedVaddr c.va)) ∨
      answer = .error (.refused (.unalignedPaddr c.pa)) ∨
      answer = .error (.refused .outOfFrames)) ∧
    (∀ (c : MapCall) (e : Fault), c.root ∈ roots → c.answer ended = .error e → ∀ r ∈ roots, ∀ va,
      translate (c.run.finalState ended) r va = translate ended r va ∧
        leafFlags (c.run.finalState ended) r va = leafFlags ended r va) ∧
    ∃ (handed : List UInt32) (owners : List (UInt32 × UInt32)),
      runCalls calls [] (⟨m, []⟩ : Supplied M) = (log, ⟨ended, handed⟩) ∧
        handed = owners.map (fun owner => PageEntry.frame (word ended owner.1 owner.2)) ∧
        owners.Nodup ∧ ∀ r i, (r, i) ∈ owners ↔
          r ∈ roots ∧ ∃ va, Vaddr.directoryIndex va = i ∧ (lastMapped log r va).isSome := by
  have h := (Represents.of_zero good ready zero).run calls hc
  let s : Supplied M := ⟨m, []⟩
  have begun : Represents roots [] s := .of_zero (m := s) good ready zero
  have unlinked : Accounts roots s [] := by
    refine ⟨.nil, fun r i => ⟨nofun, ?_⟩, rfl⟩
    rintro ⟨hr, a, -, there⟩
    obtain ⟨b, -, ⟨⟩⟩ := (begun.linked r hr a).1 there
  obtain ⟨owners, acc⟩ := unlinked.run begun calls hc
  obtain ⟨sameLog, sameMemory⟩ := runCalls_supplied calls [] s
  refine ⟨fun r hr va => h.walks hr va, fun c answer hl => ?_,
    fun c e hc refused r hr va => h.walks_of_refused hc refused hr va,
    (runCalls calls [] s).2.handed, owners, ?_, ?_, acc.nodup, fun r i => ?_⟩
  · rcases h.answers c answer hl with ⟨done, -, -⟩ | refused
    · exact .inl done
    · exact .inr refused
  · rw [← sameLog, ← sameMemory]
  · rw [acc.handed, ← sameMemory]
    rfl
  · rw [acc.mem r i]
    refine and_congr_right ?_
    intro hr
    have linked := (begun.run calls hc).linked r hr
    rw [sameLog] at linked
    constructor
    · rintro ⟨a, rfl, there⟩
      exact (linked a).1 there
    · rintro ⟨va, rfl, mapped⟩
      exact ⟨va, rfl, (linked va).2 ⟨va, rfl, mapped⟩⟩

def sampleCalls : List MapCall :=
  [⟨0x1000, 0x400000, 0x80200000, .userRwx⟩, ⟨0x2000, 0x400000, 0x80300000, .kernelRw⟩,
    ⟨0x1000, 0x400000, 0x80200001, .userRwx⟩]

def sampleMemory : WordMemory := .ofFrames [0x3000, 0x4000]

theorem tables_after_sampleCalls :
    translate (runCalls sampleCalls [] sampleMemory).2 0x1000 0x400123 = .ok (some 0x80200123) ∧
      leafFlags (runCalls sampleCalls [] sampleMemory).2 0x2000 0x400123 =
        .ok (some Perms.kernelRw.flags) ∧
      translate (runCalls sampleCalls [] sampleMemory).2 0x2000 0x800000 = .ok none ∧
      ∃ owners : List (UInt32 × UInt32), owners.Nodup ∧ owners.length = 2 := by
  have good : Good sampleMemory := by
    refine WordMemory.stocked_ofFrames ?_ ?_
    · decide
    · simp [Vaddr.aligned]
  have ready : ∀ r ∈ ({0x1000, 0x2000} : Set UInt32), Ready sampleMemory r := by
    rintro r (rfl | rfl)
    all_goals exact ⟨by decide, by simp [sampleMemory, WordMemory.ofFrames]⟩
  have zero : ∀ r ∈ ({0x1000, 0x2000} : Set UInt32), ∀ i : UInt32, i.toNat < 1024 →
      word sampleMemory r i = 0 :=
    fun r _ i _ => WordMemory.read_ofFrames _ (r + i * 4)
  have hc : ∀ c ∈ sampleCalls, c.root ∈ ({0x1000, 0x2000} : Set UInt32) := by
    simp [sampleCalls]
  obtain ⟨walks, -, -, handed, owners, recorded, tables, nodup, -⟩ :=
    tables_after_calls good ready zero sampleCalls hc
  have first : lastMapped (runCalls sampleCalls [] sampleMemory).1 0x1000 0x400123 =
      some ⟨0x1000, 0x400000, 0x80200000, .userRwx⟩ := by
    decide +kernel
  have second : lastMapped (runCalls sampleCalls [] sampleMemory).1 0x2000 0x400123 =
      some ⟨0x2000, 0x400000, 0x80300000, .kernelRw⟩ := by
    decide +kernel
  have third : lastMapped (runCalls sampleCalls [] sampleMemory).1 0x2000 0x800000 = none := by
    decide +kernel
  have count :
      (runCalls sampleCalls [] (⟨sampleMemory, []⟩ : Supplied WordMemory)).2.handed.length = 2 := by
    decide +kernel
  refine ⟨?_, ?_, ?_, owners, nodup, ?_⟩
  · rw [(walks 0x1000 (.inl rfl) 0x400123).1, first]
    decide
  · rw [(walks 0x2000 (.inr rfl) 0x400123).2, second]
    rfl
  · rw [(walks 0x2000 (.inr rfl) 0x800000).1, third]
    rfl
  · rw [recorded, tables, List.length_map] at count
    exact count

end Accounts

end PocketKernel.Paging
