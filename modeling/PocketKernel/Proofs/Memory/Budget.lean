import Mathlib
import PocketKernel.Proofs.Memory.Loading

/-!
# What address spaces cost

Each page of an image takes a frame, and each region of 4 MiB takes one more for its table when the
first of its pages is mapped. A computation has a price in frames, which depends on the tables that
are there: it succeeds exactly when as many frames remain, and takes them (`Costs`). Prices add up
along a computation (`Costs.bind`). Main statements: `costs_loadImage` and `buildSpace_paid`.
-/
namespace PocketKernel

def Vaddr.region (va : UInt32) : Nat := va.toNat / 4194304

/-- The addresses of a region have one table. -/
theorem Vaddr.region_eq_iff {a b : UInt32} :
    region a = region b ↔ directoryIndex a = directoryIndex b := by
  rw [← UInt32.toNat_inj, toNat_directoryIndex, toNat_directoryIndex, region, region]

noncomputable def regionsOf (P : UInt32 → Prop) : Finset Nat :=
  open Classical in {r ∈ Finset.range 1024 | ∃ va, P va ∧ Vaddr.region va = r}

theorem mem_regionsOf {P : UInt32 → Prop} {r : Nat} :
    r ∈ regionsOf P ↔ ∃ va, P va ∧ Vaddr.region va = r := by
  classical
  rw [regionsOf, Finset.mem_filter, Finset.mem_range, and_iff_right_iff_imp]
  rintro ⟨va, -, rfl⟩
  have := va.toNat_lt
  unfold Vaddr.region
  omega

theorem regionsOf_congr {P Q : UInt32 → Prop} (same : ∀ va, P va ↔ Q va) :
    regionsOf P = regionsOf Q := by
  ext r
  simp only [mem_regionsOf, same]

theorem regionsOf_or (P Q : UInt32 → Prop) :
    regionsOf (fun va => P va ∨ Q va) = regionsOf P ∪ regionsOf Q := by
  ext r
  simp only [Finset.mem_union, mem_regionsOf, or_and_right, exists_or]

/-- The addresses of one page lie in one region. -/
theorem regionsOf_page (va : UInt32) :
    regionsOf (fun a => Vaddr.page a = Vaddr.page va) = {Vaddr.region va} := by
  ext r
  rw [mem_regionsOf, Finset.mem_singleton]
  constructor
  · rintro ⟨a, same, rfl⟩
    exact Vaddr.region_eq_iff.2 (Vaddr.page_eq_iff.1 same).1
  · rintro rfl
    exact ⟨va, rfl, rfl⟩

theorem regionsOf_inPages_zero (va : UInt32) : regionsOf (Vaddr.InPages va 0) = ∅ := by
  refine Finset.eq_empty_of_forall_notMem fun r inside => ?_
  obtain ⟨a, here, -⟩ := mem_regionsOf.1 inside
  exact Vaddr.not_inPages_zero va a here

theorem regionsOf_inPages_succ (hva : Vaddr.aligned va = true) {count : Nat}
    (small : (count + 1) * 4096 ≤ UInt32.size) :
    regionsOf (Vaddr.InPages va (count + 1)) =
      {Vaddr.region va} ∪ regionsOf (Vaddr.InPages (va + 4096) count) := by
  rw [← regionsOf_page, ← regionsOf_or]
  exact regionsOf_congr fun a => Vaddr.inPages_succ hva small

/-- What is missing of two sets is missing of the first, or of the second when the first is
there. -/
theorem card_union_sdiff (S T R : Finset Nat) :
    ((S ∪ T) \ R).card = (S \ R).card + (T \ (R ∪ S)).card := by
  rw [← Finset.card_union_of_disjoint]
  · congr 1
    ext r
    simp only [Finset.mem_sdiff, Finset.mem_union]
    tauto
  · rw [Finset.disjoint_left]
    simp only [Finset.mem_sdiff, Finset.mem_union]
    tauto

namespace Memory
open Paging TableView TableMemory
variable {m m' : Memory} {root va pa : UInt32} {perms : Perms}

/-! ## Frames that remain -/

theorem hasFrame_iff (m : Memory) : m.HasFrame ↔ 1 ≤ m.frames.remaining := by
  have := m.frames.limit.toNat_lt
  unfold HasFrame Frames.remaining
  rw [show UInt32.size = 4294967296 from rfl]
  omega

theorem HasFrame.remaining_takeNext (h : m.HasFrame) :
    m.takeNext.frames.remaining + 1 = m.frames.remaining := by
  have next := h.toNat_next
  have room := h.2
  unfold Frames.remaining
  rw [frames_limit_takeNext, next]
  omega

noncomputable def tables (m : Memory) (root : UInt32) : Finset Nat := regionsOf (Linked m root)

theorem mem_tables : Vaddr.region va ∈ tables m root ↔ Linked m root va := by
  rw [tables, mem_regionsOf]
  refine ⟨?_, fun linked => ⟨va, linked, rfl⟩⟩
  rintro ⟨a, linked, same⟩
  rwa [Linked, Vaddr.region_eq_iff.1 same] at linked

theorem tables_congr (same : ∀ i : UInt32, i.toNat < 1024 → word m' root i = word m root i) :
    tables m' root = tables m root := by
  refine regionsOf_congr fun va => ?_
  rw [Linked, same _ (Vaddr.directoryIndex_lt va), Linked]

/-! ## Mapping one page -/

theorem tables_of_maps {leaf : UInt32} (mapped : Maps {root} root va leaf m m') :
    tables m' root = tables m root ∪ {Vaddr.region va} := by
  ext r
  simp only [tables, Finset.mem_union, mem_regionsOf, Finset.mem_singleton,
    mapped.linked root rfl, true_and, ← Vaddr.region_eq_iff]
  constructor
  · rintro ⟨a, linked | same, rfl⟩
    · exact .inl ⟨a, linked, rfl⟩
    · exact .inr same
  · rintro (⟨a, linked, rfl⟩ | rfl)
    · exact ⟨a, .inl linked, rfl⟩
    · exact ⟨va, .inr rfl, rfl⟩

theorem frames_of_storeWord {addr value : UInt32}
    (stored : storeWord addr value m = .ok () m') : m'.frames = m.frames := by
  obtain ⟨r, -, rfl⟩ := inRam_eq_ok.1 stored
  rfl

/-- Mapping a page takes a frame when its table is missing, and stops when there is none. -/
theorem mapPage_spends (h : Forest {root} m) (hva : Vaddr.aligned va = true)
    (hpa : Vaddr.aligned pa = true) (perms : Perms) :
    (¬ Linked m root va ∧ ¬ m.HasFrame ∧
      ∃ m', Paging.mapPage root va pa perms m = .error (.refused .outOfFrames) m') ∨
    (Linked m root va ∨ m.HasFrame) ∧
      ∃ m', Paging.mapPage root va pa perms m = .ok () m' ∧
        Maps {root} root va (PageEntry.make pa perms.flags) m m' ∧
        m'.frames = if Linked m root va then m.frames else m.takeNext.frames := by
  rcases h.mapPage_cases_of_aligned rfl perms hva hpa with
    ⟨m', refused, -, missing, out⟩ | ⟨m₁, m', found, stored, done, maps⟩
  · refine .inl ⟨missing, fun free => ?_, m', refused⟩
    have given : allocTable m = .ok m.frames.next m.takeNext :=
      takeFrames_one_of_hasFrame h.good free _
    rw [given] at out
    cases out
  have frames := frames_of_storeWord stored
  rw [h.directoryEntry_eq rfl va] at found
  by_cases linked : Linked m root va
  · rw [if_pos linked] at found
    obtain ⟨-, rfl⟩ := EStateM.Result.ok.inj found
    exact .inr ⟨.inl linked, m', done, maps, by rw [frames, if_pos linked]⟩
  rw [if_neg linked] at found
  obtain ⟨table, m₂, taken, linking⟩ := Action.bind_eq_ok.1 found
  obtain ⟨⟨⟩, m₃, link, ended⟩ := Action.bind_eq_ok.1 linking
  obtain ⟨-, rfl⟩ := EStateM.Result.ok.inj ended
  obtain ⟨free, -, rfl⟩ := takeFrames_one_eq_ok h.good taken
  exact .inr ⟨.inr free, m', done, maps, by rw [frames, frames_of_storeWord link, if_neg linked]⟩

/-! ## Prices -/

/-- The frames that `pages` pages cost and one table for each region without one. -/
noncomputable def price (m : Memory) (root : UInt32) (pages : Nat) (touched : Finset Nat) : Nat :=
  pages + (touched \ tables m root).card

theorem price_page (m : Memory) (root va : UInt32) (pages : Nat) :
    price m root pages {Vaddr.region va} = pages + if Linked m root va then 0 else 1 := by
  rw [price]
  split
  next linked =>
    rw [Finset.sdiff_eq_empty_iff_subset.2, Finset.card_empty]
    rwa [Finset.singleton_subset_iff, mem_tables]
  next missing =>
    rw [Finset.sdiff_eq_self_of_disjoint, Finset.card_singleton]
    rwa [Finset.disjoint_singleton_left, mem_tables]

structure Paid (root : UInt32) (pages : Nat) (touched : Finset Nat) (m m' : Memory) : Prop where
  isolated : Isolated {root} m'
  tables : tables m' root = tables m root ∪ touched
  frames : m'.frames.remaining + price m root pages touched = m.frames.remaining

/-- The computation pays the price and succeeds, or fewer frames remain and it stops. -/
def Costs {α : Type} (root : UInt32) (pages : Nat) (touched : Finset Nat) (stops : Fault → Prop)
    (x : Action Memory α) : Prop :=
  ∀ m, Isolated {root} m →
    (∃ a m', x m = .ok a m' ∧ Paid root pages touched m m') ∨
      ∃ e m', x m = .error e m' ∧ stops e ∧ m.frames.remaining < price m root pages touched

namespace Costs
variable {α β : Type} {pages pages' : Nat} {touched touched' : Finset Nat}
  {stops stops' : Fault → Prop}

theorem pure (a : α) : Costs root 0 ∅ stops (Pure.pure a : Action Memory α) := by
  intro m h
  refine .inl ⟨a, m, rfl, h, (Finset.union_empty _).symm, ?_⟩
  rw [price, Finset.empty_sdiff, Finset.card_empty, Nat.add_zero]

theorem mono {x : Action Memory α} (h : Costs root pages touched stops x)
    (imp : ∀ e, stops e → stops' e) : Costs root pages touched stops' x := by
  intro m hm
  refine (h m hm).imp_right ?_
  rintro ⟨e, m', stopped, fault, short⟩
  exact ⟨e, m', stopped, imp e fault, short⟩

/-- Prices add up, and the table of a region is paid once. -/
theorem bind {x : Action Memory α} {f : α → Action Memory β}
    (hx : Costs root pages touched stops x) (hf : ∀ a, Costs root pages' touched' stops (f a)) :
    Costs root (pages + pages') (touched ∪ touched') stops (x >>= f) := by
  intro m h
  rcases hx m h with ⟨a, m₁, done, first⟩ | ⟨e, m', stopped, fault, short⟩
  · have total : price m root (pages + pages') (touched ∪ touched') =
        price m root pages touched + price m₁ root pages' touched' := by
      rw [price, price, price, first.tables, card_union_sdiff]
      omega
    have frames := first.frames
    rcases hf a m₁ first.isolated with ⟨b, m', rest, second⟩ | ⟨e, m', stopped, fault, short⟩
    · have frames' := second.frames
      refine .inl ⟨b, m', (Action.bind_of_ok done).trans rest, second.isolated, ?_, ?_⟩
      · rw [second.tables, first.tables, Finset.union_assoc]
      · omega
    · exact .inr ⟨e, m', (Action.bind_of_ok done).trans stopped, fault, by omega⟩
  · refine .inr ⟨e, m', Action.bind_of_error stopped, fault, short.trans_le ?_⟩
    rw [price, price, card_union_sdiff]
    omega

/-- A refusal is raised under another name. -/
theorem orElseFault {x : Action Memory α} {cause : MapError}
    (h : Costs root pages touched (· = .refused cause) x) (rename : MapError → Fault) :
    Costs root pages touched (· = rename cause) (x.orElseFault rename) := by
  intro m hm
  rcases h m hm with ⟨a, m', done, paid⟩ | ⟨_, m', stopped, rfl, short⟩
  · exact .inl ⟨a, m', Action.orElseFault_eq_ok.2 done, paid⟩
  · refine .inr ⟨_, m', ?_, rfl, short⟩
    rw [Action.orElseFault, stopped]

end Costs

/-! ## Windows -/

theorem costs_mapPage (kernel : perms.user = false) (hva : Vaddr.aligned va = true)
    (hpa : Vaddr.aligned pa = true) :
    Costs root 0 {Vaddr.region va} (· = .refused .outOfFrames)
      (Paging.mapPage root va pa perms) := by
  intro m h
  rcases mapPage_spends h.forest hva hpa perms with
    ⟨missing, none, m', refused⟩ | ⟨room, m', done, maps, frames⟩
  · refine .inr ⟨_, m', refused, rfl, ?_⟩
    rw [hasFrame_iff] at none
    rw [price_page, if_neg missing]
    omega
  · refine .inl ⟨(), m', done, h.mapPage rfl kernel done, tables_of_maps maps, ?_⟩
    rw [price_page, frames, Nat.zero_add]
    split
    next => rfl
    next missing => exact (room.resolve_left missing).remaining_takeNext

theorem costs_mapPages (kernel : perms.user = false) {count : Nat}
    (small : count * 4096 ≤ UInt32.size) (hva : Vaddr.aligned va = true)
    (hpa : Vaddr.aligned pa = true) :
    Costs root 0 (regionsOf (Vaddr.InPages va count)) (· = .refused .outOfFrames)
      (mapPages root perms count va pa) := by
  induction count generalizing va pa with
  | zero =>
    rw [regionsOf_inPages_zero]
    exact .pure ()
  | succ count ih =>
    have fewer : count * 4096 ≤ UInt32.size :=
      (Nat.mul_le_mul_right 4096 (Nat.le_succ count)).trans small
    rw [regionsOf_inPages_succ hva small]
    exact (costs_mapPage kernel hva hpa).bind fun _ =>
      ih fewer (Vaddr.aligned_add hva rfl) (Vaddr.aligned_add hpa rfl)

/-! ## Images -/

inductive Starved (start length : UInt32) : Fault → Prop where
  | pages : Starved start length .outOfMemory
  | window : Starved start length (.windowNotMapped start length .outOfFrames)
  | page : Starved start length (.pageNotMapped .outOfFrames)

theorem Starved.message {start length : UInt32} {e : Fault} (h : Starved start length e) :
    e.message = "out of memory" ∨ ∃ place, e.message = place ++ "out of page-table frames" := by
  cases h with
  | pages => exact .inl rfl
  | window => exact .inr ⟨_, rfl⟩
  | page => exact .inr ⟨_, rfl⟩

/-- A frame is taken and filled, which changes no table. -/
theorem exists_fill (h : Isolated {root} m) (free : m.HasFrame) {piece : Bytes}
    (size : piece.length ≤ 4096) : ∃ m', store m.frames.next piece m.takeNext = .ok () m' ∧
      Fills {root} piece m.frames.next m m' ∧ m'.frames = m.takeNext.frames ∧
      tables m' root = tables m root := by
  obtain ⟨-, -, ready, -⟩ := keeps_takeNext h.forest.good free
  have base := ready.base
  have limit := ready.limit
  have holds : m.takeNext.ram.holds m.frames.next piece.length = true :=
    Ram.holds_iff.2 ⟨base, by omega⟩
  have stored : store m.frames.next piece m.takeNext = .ok () _ :=
    inRam_of_ok (Ram.store_of_holds holds)
  refine ⟨_, stored, Fills.of_done h free stored, rfl, tables_congr fun i hi => ?_⟩
  exact word_of_filled h.forest.good free stored (h.forest.root root rfl) hi

/-- The page of one piece, once its frame is filled. -/
theorem loadPieces_of_fill (good : m.InOrder) (free : m.HasFrame) {piece : Bytes}
    (stored : store m.frames.next piece m.takeNext = .ok () m') :
    loadPieces root perms va [piece] m = mapPage root va m.frames.next perms m' := by
  have taken : allocPages 1 m = .ok m.frames.next m.takeNext :=
    takeFrames_one_of_hasFrame good free _
  simp only [loadPieces]
  rw [Action.bind_of_ok taken, Action.bind_of_ok stored]
  exact congrFun (bind_pure_unit ..) m'

theorem costs_loadPage (start length : UInt32) (hva : Vaddr.aligned va = true) {piece : Bytes}
    (size : piece.length ≤ 4096) (perms : Perms) :
    Costs root 1 {Vaddr.region va} (Starved start length)
      (loadPieces root perms va [piece]) := by
  intro m h
  rw [price_page]
  by_cases free : m.HasFrame
  swap
  · have refused : allocPages 1 m = .error .outOfMemory m := takeFrames_one_of_not_hasFrame free _
    refine .inr ⟨_, m, Action.bind_of_error refused, .pages, ?_⟩
    rw [hasFrame_iff] at free
    omega
  obtain ⟨m₁, stored, fills, frames, same⟩ := exists_fill h free size
  have page : loadPieces root perms va [piece] m = mapPage root va m.frames.next perms m₁ :=
    loadPieces_of_fill h.forest.good free stored
  have linked : Linked m₁ root va ↔ Linked m root va := by rw [← mem_tables, same, mem_tables]
  have taken := free.remaining_takeNext
  rw [← frames] at taken
  have aligned : Vaddr.aligned m.frames.next = true := Vaddr.aligned_iff.2 h.forest.good.aligned
  rcases mapPage_spends fills.isolated.forest hva aligned perms with
    ⟨missing, none, m', refused⟩ | ⟨room, m', done, maps, frames'⟩
  · refine .inr ⟨.pageNotMapped .outOfFrames, m', ?_, .page, ?_⟩
    · rw [page, mapPage, Action.orElseFault, refused]
    · rw [hasFrame_iff] at none
      rw [if_neg (linked.not.1 missing)]
      omega
  · have whole : loadPieces root perms va [piece] m = .ok () m' := by
      rw [page, mapPage, Action.orElseFault_eq_ok, done]
    obtain ⟨_, loads, rest⟩ := LoadsPage.of_done h rfl whole
    cases rest
    refine .inl ⟨(), m', whole, loads.isolated, (tables_of_maps maps).trans (by rw [same]), ?_⟩
    rw [price_page, frames']
    simp only [← linked]
    split
    next => exact taken
    next missing =>
      have := (room.resolve_left missing).remaining_takeNext
      omega

theorem loadPieces_cons (root va : UInt32) (perms : Perms) (piece : Bytes) (rest : List Bytes) :
    loadPieces root perms va (piece :: rest) =
      loadPieces root perms va [piece] >>= fun _ => loadPieces root perms (va + 4096) rest := by
  simp only [loadPieces, bind_assoc, pure_bind]

theorem costs_loadPieces (start length : UInt32) (perms : Perms) {pieces : List Bytes}
    (hva : Vaddr.aligned va = true) (small : pieces.length * 4096 ≤ UInt32.size)
    (sizes : ∀ piece ∈ pieces, piece.length ≤ 4096) :
    Costs root pieces.length (regionsOf (Vaddr.InPages va pieces.length)) (Starved start length)
      (loadPieces root perms va pieces) := by
  induction pieces generalizing va with
  | nil =>
    rw [List.length_nil, regionsOf_inPages_zero]
    exact .pure ()
  | cons piece rest ih =>
    rw [List.forall_mem_cons] at sizes
    have fewer : rest.length * 4096 ≤ UInt32.size :=
      (Nat.mul_le_mul_right 4096 (Nat.le_succ rest.length)).trans small
    rw [List.length_cons] at small ⊢
    rw [loadPieces_cons, regionsOf_inPages_succ hva small, Nat.add_comm]
    exact (costs_loadPage start length hva sizes.1 perms).bind fun _ =>
      ih (Vaddr.aligned_add hva rfl) fewer sizes.2

theorem costs_loadImage (start length : UInt32) (perms : Perms) {image : Bytes}
    (hva : Vaddr.aligned va = true) (small : pageCount image.length * 4096 ≤ UInt32.size) :
    Costs root (pageCount image.length) (regionsOf (Vaddr.InPages va (pageCount image.length)))
      (Starved start length) (loadImage root va image perms) := by
  have count : (Bytes.chunks 4095 image).length = pageCount image.length := Bytes.length_chunks _ _
  rw [← count] at small ⊢
  exact costs_loadPieces start length perms hva small fun _ => Bytes.length_le_of_mem_chunks

/-! ## Address spaces -/

def buildSpace (start length device : UInt32) : Action Memory UInt32 := do
  let root ← allocPages 1
  identityMap root start length .kernelRwx
  mapPage root device device .kernelRw
  pure root

noncomputable def spaceRegions (start length device : UInt32) : Finset Nat :=
  regionsOf fun va =>
    Vaddr.InPages start (pageCount length.toNat) va ∨ Vaddr.page va = Vaddr.page device

section Space
variable {start length device : UInt32}

theorem costs_space (root : UInt32) (hstart : Vaddr.aligned start = true)
    (hdevice : Vaddr.aligned device = true) :
    Costs root 0 (spaceRegions start length device) (Starved start length) (do
      identityMap root start length .kernelRwx
      mapPage root device device .kernelRw
      pure root : Action Memory UInt32) := by
  have window : Costs root 0 _ (Starved start length) (identityMap root start length .kernelRwx) :=
    ((costs_mapPages rfl (pageCount_mul_le length) hstart hstart).orElseFault _).mono <| by
      rintro _ rfl
      exact .window
  have page : Costs root 0 _ (Starved start length) (mapPage root device device .kernelRw) :=
    ((costs_mapPage rfl hdevice hdevice).orElseFault _).mono <| by
      rintro _ rfl
      exact .page
  have costs := window.bind fun _ => page.bind fun _ => .pure root
  rw [Finset.union_empty, ← regionsOf_page, ← regionsOf_or] at costs
  exact costs

theorem isolated_empty (good : m.InOrder) : Isolated ∅ m :=
  ⟨⟨good, nofun, nofun, nofun⟩, nofun, nofun, nofun⟩

/-- A new root costs a frame, and its address space the tables. -/
theorem buildSpace_paid (good : m.InOrder) (hstart : Vaddr.aligned start = true)
    (hdevice : Vaddr.aligned device = true) :
    (∃ root m', buildSpace start length device m = .ok root m' ∧ Isolated {root} m' ∧
      tables m' root = spaceRegions start length device ∧
      m'.frames.remaining + (1 + (spaceRegions start length device).card) = m.frames.remaining) ∨
    ∃ e m', buildSpace start length device m = .error e m' ∧ Starved start length e ∧
      m.frames.remaining < 1 + (spaceRegions start length device).card := by
  by_cases free : m.HasFrame
  swap
  · have refused : allocPages 1 m = .error .outOfMemory m := takeFrames_one_of_not_hasFrame free _
    refine .inr ⟨_, m, Action.bind_of_error refused, .pages, ?_⟩
    rw [hasFrame_iff] at free
    omega
  have taken : allocPages 1 m = .ok m.frames.next m.takeNext :=
    takeFrames_one_of_hasFrame good free _
  obtain ⟨keeps, fresh, ready, zero⟩ := keeps_takeNext good free
  have isolated := (isolated_empty good).insert_root keeps fresh ready zero
  rw [insert_empty_eq] at isolated
  have blank : tables m.takeNext m.frames.next = ∅ := by
    refine Finset.eq_empty_of_forall_notMem fun r inside => ?_
    obtain ⟨a, linked, -⟩ := mem_regionsOf.1 inside
    rw [Linked, zero _ (Vaddr.directoryIndex_lt a)] at linked
    cases linked
  have cost : price m.takeNext m.frames.next 0 (spaceRegions start length device) =
      (spaceRegions start length device).card := by
    rw [price, blank, Finset.sdiff_empty, Nat.zero_add]
  have left := free.remaining_takeNext
  unfold buildSpace
  rw [Action.bind_of_ok taken]
  rcases costs_space m.frames.next hstart hdevice m.takeNext isolated with
    ⟨root, m', done, paid⟩ | ⟨e, m', stopped, fault, short⟩
  · have same : root = m.frames.next := by
      obtain ⟨_, _, -, rest⟩ := Action.bind_eq_ok.1 done
      obtain ⟨_, _, -, ended⟩ := Action.bind_eq_ok.1 rest
      cases ended
      rfl
    have frames := paid.frames
    refine .inl ⟨root, m', done, same ▸ paid.isolated, ?_, by omega⟩
    rw [same, paid.tables, blank, Finset.empty_union]
  · exact .inr ⟨e, m', stopped, fault, by omega⟩

end Space

end Memory
end PocketKernel
