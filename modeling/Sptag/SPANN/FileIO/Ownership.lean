import Sptag.SPANN.FileIO.Store

/-! Who owns the blocks: the blocks of the mapped keys and the two free queues are apart, and
what each store operation does to them when calls may fail. -/

namespace Sptag.SPANN

open Sptag.Lib
open BlockController

namespace Store

def entryBlocks : Option Addresses → List Int
  | none => []
  | some a => a.blocks

def mapped (m : List (Option Addresses)) : List Int := m.flatMap entryBlocks

theorem mapped_set {m : List (Option Addresses)} {key : Nat} (h : key < m.length)
    (r : Option Addresses) :
    (mapped (m.set key r)).Perm (entryBlocks r ++ mapped (m.set key none)) := by
  rw [mapped, mapped, List.set_eq_take_append_cons_drop, if_pos h,
    List.set_eq_take_append_cons_drop, if_pos h]
  simp only [List.flatMap_append, List.flatMap_cons, entryBlocks, List.nil_append]
  exact List.perm_append_comm_assoc _ _ _

@[simp] theorem mapped_append_none (m : List (Option Addresses)) (n : Nat) :
    mapped (m ++ List.replicate n none) = mapped m := by
  rw [mapped, List.flatMap_append]
  simp [mapped, entryBlocks, List.flatMap_replicate]

variable (opt : Options) {st : Store} {key : Nat}

theorem at?_setAt (h : key < st.blockMapping.length) (r : Option Addresses) (k : Nat) :
    (st.setAt key r).at? k = if k = key then r else st.at? k := by
  unfold at? setAt
  rw [List.getElem?_set]
  by_cases hk : k = key
  · subst hk
    simp [h]
  · rw [if_neg (Ne.symm hk), if_neg hk]

theorem set_at?_self (h : key < st.blockMapping.length) :
    st.blockMapping.set key (st.at? key) = st.blockMapping := by
  unfold at?
  rw [List.getElem?_eq_getElem h, Option.join_some, List.set_getElem_self]

theorem mem_blockMapping {a : Addresses} :
    some a ∈ st.blockMapping ↔ ∃ k, st.at? k = some a := by
  rw [List.mem_iff_getElem?]
  simp only [at?, Option.join_eq_some_iff]

def rest (st : Store) (key : Nat) : List Int := mapped (st.blockMapping.set key none)

theorem mapped_perm (h : key < st.blockMapping.length) :
    (mapped st.blockMapping).Perm (entryBlocks (st.at? key) ++ st.rest key) := by
  have hset := mapped_set h (st.at? key)
  rwa [set_at?_self h] at hset

/-- The ownership invariant; `full` says that an array has a slot for each page of its value,
`buffer` that an array can always be taken from the buffer. -/
structure Owned (st : Store) : Prop where
  owns : st.blockController.Owns (mapped st.blockMapping)
  full : ∀ k a, st.at? k = some a → 0 ≤ a.size → pages a.size.toNat ≤ a.slots.length
  buffer : bufferLimit ≤ st.buffer

theorem Owned.at_key (h : st.Owned) (hk : key < st.blockMapping.length) :
    st.blockController.Owns (entryBlocks (st.at? key) ++ st.rest key) :=
  h.owns.perm (mapped_perm hk)

structure AtKey (key : Nat) (r : Option Addresses) (st st' : Store) : Prop where
  mapping : st'.blockMapping = st.blockMapping.set key r
  buffer : bufferLimit ≤ st'.buffer

theorem AtKey.owned {st' : Store} {r : Option Addresses} (hs : AtKey key r st st')
    (h : st.Owned) (hk : key < st.blockMapping.length)
    (howns : st'.blockController.Owns (entryBlocks r ++ st.rest key))
    (hfull : ∀ a, r = some a → 0 ≤ a.size → pages a.size.toNat ≤ a.slots.length) :
    st'.Owned := by
  refine ⟨?_, ?_, hs.buffer⟩
  · rw [hs.mapping]
    exact howns.perm (mapped_set hk r).symm
  · intro k a ha
    have hat : st'.at? k = (st.setAt key r).at? k := by
      rw [at?, hs.mapping]
      rfl
    rw [hat, at?_setAt hk] at ha
    split at ha
    · exact hfull a ha
    · exact h.full k a ha

structure Frame (used : List Int) (bc bc' : BlockController) : Prop where
  pages : ∀ id ∈ used, bc'.pages id = bc.pages id
  writes : bc'.io.writes.Sublist bc.io.writes
  faults : bc.faults ≤ bc'.faults

theorem Frame.refl (used : List Int) (bc : BlockController) : Frame used bc bc :=
  ⟨fun _ _ => rfl, .refl _, le_refl _⟩

theorem Frame.trans {used : List Int} {a b c : BlockController} (h : Frame used a b)
    (h' : Frame used b c) : Frame used a c :=
  ⟨fun id hid => (h'.pages id hid).trans (h.pages id hid), h'.writes.trans h.writes,
    h.faults.trans h'.faults⟩

theorem Frame.mono {used used' : List Int} {bc bc' : BlockController} (h : Frame used bc bc')
    (hsub : ∀ id ∈ used', id ∈ used) : Frame used' bc bc' :=
  ⟨fun id hid => h.pages id (hsub id hid), h.writes, h.faults⟩

def WritesOk (bc : BlockController) : Prop := ∀ o ∈ bc.io.writes, o = none

theorem Frame.writesOk {used : List Int} {bc bc' : BlockController} (h : Frame used bc bc')
    (hok : WritesOk bc) : WritesOk bc' := fun o ho => hok o (h.writes.subset ho)

def AllocateSpec (used : List Int) (bc : BlockController) (p_size : Int) (value : Bytes) :
    Allocation × BlockController → Prop
  | (.done ids, bc') =>
    bc'.Owns (ids ++ used) ∧ ids.length = p_size.toNat ∧ 0 ≤ p_size ∧ bc'.faults = bc.faults ∧
      bc'.pages = writePages ids value bc.pages
  | (.dry _, bc') => bc'.Owns used ∧ bc.faults < bc'.faults
  | (.unwritten _, bc') =>
    bc'.Owns used ∧ (0 ≤ p_size → bc.faults < bc'.faults ∧ ¬ WritesOk bc)

theorem allocate_spec {used : List Int} {bc : BlockController} (p_size : Int) (value : Bytes)
    (h : bc.Owns used) :
    Frame used bc (allocate opt bc p_size value).2 ∧
      AllocateSpec used bc p_size value (allocate opt bc p_size value) := by
  obtain ⟨hown, hstep, hfaults, hlen, hiff⟩ := getBlocks_spec opt p_size h
  rcases hgot : bc.getBlocks opt p_size with ⟨⟨ok, ids⟩, bc'⟩
  rw [hgot] at hown hstep hfaults hlen hiff
  cases ok with
  | false =>
    have halloc : allocate opt bc p_size value = (.dry ids, bc') := by
      rw [allocate, hgot]
      rfl
    rw [halloc]
    refine ⟨⟨fun id _ => by rw [hstep.pages], by rw [hstep.writes], hfaults⟩, hown.forget, ?_⟩
    exact lt_of_le_of_ne hfaults fun heq => Bool.false_ne_true (hiff.mp heq.symm)
  | true =>
    have hlen : ids.length = p_size.toNat := hlen rfl
    have hsame : bc'.faults = bc.faults := hiff.mpr rfl
    obtain ⟨hpool, -, hfaults', hiff', hwrites, hpages, hdone, hsucc⟩ :=
      writeBlocks_spec bc' ids p_size value
    have htake : ids.take p_size.toNat = ids := List.take_of_length_le hlen.le
    have hapart : ∀ id ∈ used, id ∉ ids.take p_size.toNat := by
      intro id hid hmem
      have hnodup := (List.nodup_append'.mp hown.partition.nodup).2.1
      exact (List.nodup_append'.mp hnodup).2.2 (List.mem_of_mem_take hmem) hid
    have hown' := hpool.owns hown
    have hneg : (bc'.writeBlocks ids p_size value).1 = true → 0 ≤ p_size := by
      intro hok
      by_contra hlt
      rw [writeBlocks, if_pos (by omega)] at hok
      cases hok
    rcases hw : bc'.writeBlocks ids p_size value with ⟨wok, bc''⟩
    rw [hw] at hfaults' hiff' hwrites hpages hdone hsucc hown' hneg
    have hframe : Frame used bc bc'' :=
      ⟨fun id hid => by rw [hpages id (hapart id hid), hstep.pages], hstep.writes ▸ hwrites,
        hsame ▸ hfaults'⟩
    cases wok with
    | true =>
      have halloc : allocate opt bc p_size value = (.done ids, bc'') := by
        rw [allocate, hgot]
        simp only [if_true]
        rw [hw]
        rfl
      rw [halloc]
      refine ⟨hframe, hown', hlen, hneg rfl, ((hiff' (hneg rfl)).mpr rfl).trans hsame, ?_⟩
      rw [hdone rfl, htake, hstep.pages]
    | false =>
      have halloc : allocate opt bc p_size value =
          (.unwritten ids, bc''.releaseBlocks opt ids) := by
        rw [allocate, hgot]
        simp only [if_true]
        rw [hw]
        rfl
      rw [halloc]
      obtain ⟨hrel, hrp, hrio, hrf, -⟩ := releaseBlocks_spec opt hown'
      refine ⟨⟨fun id hid => by rw [hrp]; exact hframe.pages id hid,
        by rw [hrio]; exact hframe.writes, by rw [hrf]; exact hframe.faults⟩,
        hrel, fun h0 => ⟨?_, fun hok => ?_⟩⟩
      · have hlt : bc'.faults < bc''.faults :=
          lt_of_le_of_ne hfaults' fun heq => Bool.false_ne_true ((hiff' h0).mp heq.symm)
        rw [hrf]
        exact hsame ▸ hlt
      · exact Bool.false_ne_true (hsucc h0 fun o ho => hok o (hstep.writes ▸ ho))

theorem allocate_enough {used : List Int} {bc : BlockController} {p_size : Int} (value : Bytes)
    (h : bc.Owns used) (hw : WritesOk bc) (he : bc.io.expands = []) (h0 : 0 ≤ p_size)
    (hn : p_size.toNat ≤ bc.blockAddresses.length) :
    (allocate opt bc p_size value).2.faults = bc.faults ∧
      bc.blockAddresses.length - p_size.toNat ≤
        (allocate opt bc p_size value).2.blockAddresses.length := by
  obtain ⟨hok, hlen⟩ := getBlocks_enough opt he hn
  obtain ⟨-, hstep, -, -, hiff⟩ := getBlocks_spec opt p_size h
  obtain ⟨hpool, -, -, hiff', -, -, -, hsucc⟩ := writeBlocks_spec (bc.getBlocks opt p_size).2
    (bc.getBlocks opt p_size).1.2 p_size value
  have hwrote := hsucc h0 (hstep.writes ▸ hw)
  unfold allocate
  simp only
  rw [if_pos hok, if_pos hwrote]
  refine ⟨((hiff' h0).mpr hwrote).trans (hiff.mpr hok), ?_⟩
  rw [hpool.blockAddresses]
  exact hlen

structure Touches (key : Nat) (st st' : Store) : Prop where
  length : st'.blockMapping.length = st.blockMapping.length
  others : ∀ k, k ≠ key → st'.at? k = st.at? k
  frame : Frame (st.rest key) st.blockController st'.blockController

def SizedAt (st : Store) (key : Nat) : Prop := ∀ a, st.at? key = some a → 0 ≤ a.size

theorem touches_of_frame {st' : Store} {r : Option Addresses} (hk : key < st.blockMapping.length)
    (hmap : st'.blockMapping = st.blockMapping.set key r)
    (hframe : Frame (st.rest key) st.blockController st'.blockController) :
    Touches key st st' := by
  refine ⟨by rw [hmap, List.length_set], fun k hne => ?_, hframe⟩
  have hat : st'.at? k = (st.setAt key r).at? k := by
    rw [at?, hmap]
    rfl
  rw [hat, at?_setAt hk, if_neg hne]

theorem blocks_full {size : Int} {ids : List Int} (h0 : 0 ≤ size)
    (hlen : ids.length = pages size.toNat) : (Addresses.mk size ids).blocks = ids := by
  rw [Addresses.blocks, if_neg (not_lt.mpr h0), List.take_of_length_le hlen.le]

theorem blocks_eq (a : Addresses) : a.blocks = a.slots.take (pages a.size.toNat) := by
  unfold Addresses.blocks
  split
  · rename_i hneg
    rw [Int.toNat_of_nonpos hneg.le]
    rfl
  · rfl

theorem Owned.full' (h : st.Owned) {a : Addresses} (hat : st.at? key = some a) :
    pages a.size.toNat ≤ a.slots.length := by
  by_cases h0 : 0 ≤ a.size
  · exact h.full key a hat h0
  · rw [Int.toNat_of_nonpos (by omega)]
    exact Nat.zero_le _

theorem takeArray_buffer (h : bufferLimit ≤ st.buffer) : bufferLimit ≤ st.takeArray.buffer := by
  unfold takeArray
  split
  · simp only
    omega
  · exact h

@[simp] theorem takeArray_blockMapping : st.takeArray.blockMapping = st.blockMapping := by
  unfold takeArray
  split <;> rfl

@[simp] theorem takeArray_blockController :
    st.takeArray.blockController = st.blockController := by
  unfold takeArray
  split <;> rfl

structure Stored (key : Nat) (value : Bytes) (st : Store) : Prop where
  at_key : ∃ ids, st.at? key = some ⟨value.length, ids⟩ ∧ ids.length = pages value.length ∧
    readPages st.blockController.pages ids value.length = value

theorem at?_of_mapping {st' : Store} {r : Option Addresses} (hk : key < st.blockMapping.length)
    (hmap : st'.blockMapping = st.blockMapping.set key r) : st'.at? key = r := by
  have hat : st'.at? key = (st.setAt key r).at? key := by
    rw [at?, hmap]
    rfl
  rw [hat, at?_setAt hk, if_pos rfl]

theorem owned_of_replace (st' : Store) {size : Nat} {ids : List Int} (h : st.Owned)
    (hk : key < st.blockMapping.length)
    (hmap : st'.blockMapping = st.blockMapping.set key (some ⟨size, ids⟩))
    (hbuf : bufferLimit ≤ st'.buffer) (hlen : pages size ≤ ids.length)
    (howns : st'.blockController.Owns (ids.take (pages size) ++ st.rest key)) :
    st'.Owned ∧ st'.SizedAt key := by
  have hblocks : entryBlocks (some ⟨(size : Int), ids⟩) = ids.take (pages size) := by
    rw [entryBlocks, Addresses.blocks, if_neg (not_lt.mpr (Int.natCast_nonneg size)),
      Int.toNat_natCast]
  refine ⟨AtKey.owned ⟨hmap, hbuf⟩ h hk (hblocks ▸ howns) ?_, ?_⟩
  · intro a ha _
    obtain rfl := Option.some.inj ha
    simpa using hlen
  · intro a ha
    rw [at?_of_mapping hk hmap] at ha
    obtain rfl := Option.some.inj ha
    exact Int.natCast_nonneg size

theorem owned_of_same (st' : Store) {r : Option Addresses} (h : st.Owned)
    (hk : key < st.blockMapping.length) (hmap : st'.blockMapping = st.blockMapping.set key r)
    (hbuf : bufferLimit ≤ st'.buffer)
    (howns : st'.blockController.Owns (entryBlocks r ++ st.rest key))
    (hsize : r.map (·.size) = (st.at? key).map (·.size))
    (hslots : ∀ a, r = some a → 0 ≤ a.size → pages a.size.toNat ≤ a.slots.length) :
    st'.Owned ∧ (st.SizedAt key → st'.SizedAt key) := by
  refine ⟨AtKey.owned ⟨hmap, hbuf⟩ h hk howns hslots, fun hs a ha => ?_⟩
  rw [at?_of_mapping hk hmap] at ha
  subst ha
  obtain ⟨b, hb, hba⟩ := Option.map_eq_some_iff.mp (hsize.symm.trans rfl)
  have hb0 := hs b hb
  rwa [hba] at hb0

theorem owned_of_controller {st' : Store} (h : st.Owned) (hk : key < st.blockMapping.length)
    (hmap : st'.blockMapping = st.blockMapping) (hbuf : bufferLimit ≤ st'.buffer)
    (howns : st'.blockController.Owns (entryBlocks (st.at? key) ++ st.rest key)) :
    st'.Owned ∧ (st.SizedAt key → st'.SizedAt key) :=
  owned_of_same _ h hk (hmap.trans (set_at?_self hk).symm) hbuf howns rfl
    fun a ha => h.full key a ha

theorem stored_of_done {st' : Store} {value : Bytes} {ids used : List Int}
    {old : Int → Bytes} (hat : st'.at? key = some ⟨value.length, ids⟩)
    (hlen : ids.length = pages value.length) (howns : st'.blockController.Owns (ids ++ used))
    (hpages : st'.blockController.pages = writePages ids value old) : Stored key value st' := by
  refine ⟨ids, hat, hlen, ?_⟩
  have hnodup := (List.nodup_append'.mp howns.partition.nodup).2.1
  rw [hpages]
  exact readPages_writePages (List.nodup_append'.mp hnodup).1 hlen old

structure PutSpec (st : Store) (key : Nat) (value : Bytes) (r : ErrorCode × Store) : Prop where
  touches : Touches key st r.2
  owned : r.2.Owned
  sized : st.SizedAt key → r.2.SizedAt key
  stored : r.2.blockController.faults = st.blockController.faults →
    r.1 = .success ∧ Stored key value r.2

theorem PutSpec.failed {value : Bytes} {st' : Store} {e : ErrorCode} (ht : Touches key st st')
    (howned : st'.Owned ∧ (st.SizedAt key → st'.SizedAt key))
    (hfaults : st.blockController.faults < st'.blockController.faults) :
    PutSpec st key value (e, st') :=
  ⟨ht, howned.1, howned.2, fun heq => absurd heq (ne_of_gt hfaults)⟩

theorem PutSpec.done {value : Bytes} {st' : Store} {ids : List Int} {old : Int → Bytes}
    (h : st.Owned) (hk : key < st.blockMapping.length)
    (hmap : st'.blockMapping = st.blockMapping.set key (some ⟨value.length, ids⟩))
    (hbuf : bufferLimit ≤ st'.buffer) (hlen : ids.length = pages value.length)
    (howns : st'.blockController.Owns (ids ++ st.rest key))
    (hframe : Frame (st.rest key) st.blockController st'.blockController)
    (hpages : st'.blockController.pages = writePages ids value old) :
    PutSpec st key value (.success, st') := by
  have htake : ids.take (pages value.length) = ids := List.take_of_length_le hlen.le
  obtain ⟨howned, hsized⟩ := owned_of_replace _ h hk hmap hbuf hlen.ge (by rw [htake]; exact howns)
  exact ⟨touches_of_frame hk hmap hframe, howned, fun _ => hsized,
    fun _ => ⟨rfl, stored_of_done (at?_of_mapping hk hmap) hlen howns hpages⟩⟩

theorem putBlocks_fresh (h : st.Owned) (hk : key < st.blockMapping.length) (value : Bytes)
    (hat : st.at? key = none) : PutSpec st key value (st.putBlocks opt key value) := by
  have hown := h.at_key hk
  rw [hat] at hown
  obtain ⟨hframe, hspec⟩ := allocate_spec opt (pages value.length) value hown
  have hmap : ∀ bc, (st.takeArray.controller bc).blockMapping = st.blockMapping :=
    fun bc => takeArray_blockMapping
  have hkeep : ∀ bc, st.blockController.faults < bc.faults →
      bc.Owns (entryBlocks none ++ st.rest key) → Frame (st.rest key) st.blockController bc →
      PutSpec st key value (.diskIOFail, st.takeArray.controller bc) := by
    intro bc hlt howns hf
    refine .failed (touches_of_frame (r := st.at? key) hk ?_ hf) ?_ hlt
    · exact (hmap bc).trans (set_at?_self hk).symm
    · exact owned_of_controller h hk (hmap bc) (takeArray_buffer h.buffer) (hat ▸ howns)
  unfold putBlocks
  rw [hat]
  simp only [takeArray_blockController]
  rcases halloc : allocate opt st.blockController (pages value.length) value with
    ⟨ids | ids | ids, bc⟩
  all_goals rw [halloc] at hframe hspec
  · obtain ⟨howns, hlen, -, -, hpages⟩ := hspec
    refine .done h hk ?_ (takeArray_buffer h.buffer) (by simpa using hlen) howns hframe hpages
    exact congrArg (List.set · key _) (hmap bc)
  · exact hkeep bc hspec.2 hspec.1 hframe
  · exact hkeep bc (hspec.2 (by omega)).1 hspec.1 hframe

theorem putBlocks_unsized {a : Addresses} (h : st.Owned) (hk : key < st.blockMapping.length)
    (value : Bytes) (hgood : WritesOk st.blockController ∨ st.SizedAt key)
    (hat : st.at? key = some a) (hneg : a.size < 0) :
    PutSpec st key value (st.putBlocks opt key value) := by
  have hown := h.at_key hk
  have hblocks : entryBlocks (st.at? key) = [] := by
    rw [hat]
    exact if_pos hneg
  rw [hblocks] at hown
  obtain ⟨hframe, hspec⟩ := allocate_spec opt (pages value.length) value hown
  unfold putBlocks
  rw [hat]
  simp only [hneg, if_true]
  rcases halloc : allocate opt st.blockController (pages value.length) value with
    ⟨ids | ids | ids, bc⟩
  all_goals rw [halloc] at hframe hspec
  · obtain ⟨howns, hlen, -, -, hpages⟩ := hspec
    exact .done h hk rfl h.buffer (by simpa using hlen) howns hframe hpages
  · refine .failed (touches_of_frame hk rfl hframe) ?_ hspec.2
    refine owned_of_same _ h hk rfl h.buffer ?_ ?_ ?_
    · have hw : entryBlocks (some (a.write 0 ids)) = [] := if_pos hneg
      rw [hw]
      exact hspec.1
    · rw [hat]
      rfl
    · intro b hb hb0
      obtain rfl := Option.some.inj hb
      exact absurd hneg (not_lt.mpr hb0)
  · -- the slip: excluded, because no write fails or the entry has a size
    rcases hgood with hok | hs
    · exact absurd hok (hspec.2 (by omega)).2
    · exact absurd hneg (not_lt.mpr (hs a hat))

theorem putBlocks_sized {a : Addresses} (h : st.Owned) (hk : key < st.blockMapping.length)
    (value : Bytes) (hat : st.at? key = some a) (hpos : ¬ a.size < 0) :
    PutSpec st key value (st.putBlocks opt key value) := by
  have hown := h.at_key hk
  have hblocks : entryBlocks (st.at? key) = a.blocks := by rw [hat]; rfl
  rw [hblocks] at hown
  obtain ⟨hframe, hspec⟩ := allocate_spec opt (pages value.length) value hown
  have hframe' : ∀ {bc : BlockController} {ids : List Int},
      Frame (ids ++ st.rest key) st.blockController bc →
        Frame (st.rest key) st.blockController bc :=
    fun hf => hf.mono fun id hid => List.mem_append_right _ hid
  have hbuf : bufferLimit ≤ st.buffer - 1 + 1 := by
    have := h.buffer
    omega
  have hkeep : ∀ bc, st.blockController.faults < bc.faults →
      bc.Owns (a.blocks ++ st.rest key) → Frame (st.rest key) st.blockController bc →
      PutSpec st key value (.diskIOFail, (st.popBuffer.controller bc).pushBuffer) := by
    intro bc hlt howns hf
    refine .failed (touches_of_frame hk (set_at?_self hk).symm hf) ?_ hlt
    exact owned_of_controller h hk rfl hbuf (hblocks ▸ howns)
  have hbc : st.popBuffer.blockController = st.blockController := rfl
  unfold putBlocks
  rw [hat]
  simp only [hpos, if_false, hbc]
  rcases halloc : allocate opt st.blockController (pages value.length) value with
    ⟨ids | ids | ids, bc⟩
  all_goals rw [halloc] at hframe hspec
  · obtain ⟨howns, hlen, -, -, hpages⟩ := hspec
    obtain ⟨hrel, hrp, hrio, hrf, -⟩ := releaseBlocks_spec opt
      (howns.perm (List.perm_append_comm_assoc ids a.blocks (st.rest key)))
    refine .done h hk rfl hbuf (by simpa using hlen) hrel ?_ (hrp.trans hpages)
    have hf := hframe' hframe
    exact ⟨fun id hid => (congrFun hrp id).trans (hf.pages id hid), hrio ▸ hf.writes,
      hrf ▸ hf.faults⟩
  · exact hkeep bc hspec.2 hspec.1 (hframe' hframe)
  · exact hkeep bc (hspec.2 (by omega)).1 hspec.1 (hframe' hframe)

theorem putBlocks_spec (h : st.Owned) (hk : key < st.blockMapping.length) (value : Bytes)
    (hgood : WritesOk st.blockController ∨ st.SizedAt key) :
    PutSpec st key value (st.putBlocks opt key value) := by
  cases hat : st.at? key with
  | none => exact putBlocks_fresh opt h hk value hat
  | some a =>
    by_cases hneg : a.size < 0
    · exact putBlocks_unsized opt h hk value hgood hat hneg
    · exact putBlocks_sized opt h hk value hat hneg

theorem set_none_congr {m m' : List (Option Addresses)} (hlen : m'.length = m.length)
    (h : ∀ k, k ≠ key → m'[k]? = m[k]?) : m'.set key none = m.set key none := by
  apply List.ext_getElem?
  intro k
  by_cases hk : k = key
  · subst hk
    simp [List.getElem?_set, hlen]
  · rw [List.getElem?_set_ne (Ne.symm hk), List.getElem?_set_ne (Ne.symm hk), h k hk]

theorem getElem?_eq_of_at? {st' : Store} {k : Nat}
    (hlen : st'.blockMapping.length = st.blockMapping.length) (h : st'.at? k = st.at? k) :
    st'.blockMapping[k]? = st.blockMapping[k]? := by
  unfold at? at h
  by_cases hk : k < st.blockMapping.length
  · rw [List.getElem?_eq_getElem hk, List.getElem?_eq_getElem (hlen ▸ hk)] at h ⊢
    simpa using h
  · rw [List.getElem?_eq_none (by omega), List.getElem?_eq_none (by omega)]

theorem Touches.rest_eq {st' : Store} (h : Touches key st st') : st'.rest key = st.rest key :=
  congrArg mapped
    (set_none_congr h.length fun k hk => getElem?_eq_of_at? h.length (h.others k hk))

theorem Touches.refl (key : Nat) (st : Store) : Touches key st st :=
  ⟨rfl, fun _ _ => rfl, .refl _ _⟩

theorem Touches.trans {a b c : Store} (h : Touches key a b) (h' : Touches key b c) :
    Touches key a c :=
  ⟨h'.length.trans h.length, fun k hk => (h'.others k hk).trans (h.others k hk),
    h.frame.trans (h.rest_eq ▸ h'.frame)⟩

theorem frame_of_poolStep {bc bc' : BlockController} (used : List Int) (h : PoolStep bc bc')
    (hf : bc.faults ≤ bc'.faults) : Frame used bc bc' :=
  ⟨fun id _ => by rw [h.pages], by rw [h.writes], hf⟩

theorem releaseBlocks_frame {bc : BlockController} {ids used : List Int} (u : List Int)
    (h : bc.Owns (ids ++ used)) : Frame u bc (bc.releaseBlocks opt ids) := by
  obtain ⟨-, hp, hio, hf, -⟩ := releaseBlocks_spec opt h
  exact ⟨fun id _ => by rw [hp], by rw [hio], hf.ge⟩

structure ResizeSpec (st : Store) (key : Nat) (size : Nat) (r : ErrorCode × Store) : Prop where
  touches : Touches key st r.2
  owned : r.2.Owned
  sized : r.2.blockController.faults = st.blockController.faults →
    r.1 = .success ∧ ∃ slots, r.2.at? key = some ⟨size, slots⟩

theorem take_write_length {slots : List Int} (ids : List Int) {k n : Nat} (hk : k ≤ slots.length)
    (hn : n = k + ids.length) : (slots.take k ++ ids).take n = slots.take k ++ ids := by
  apply List.take_of_length_le
  rw [List.length_append, List.length_take]
  omega

theorem write_blocks {a : Addresses} (h : pages a.size.toNat ≤ a.slots.length) (ids : List Int) :
    (a.write (pages a.size.toNat) ids).blocks = a.blocks := by
  rw [blocks_eq, blocks_eq]
  simp only [Addresses.write]
  rw [List.take_append_of_le_length (by rw [List.length_take]; omega), List.take_take, min_self]

theorem grow_spec {a : Addresses} {size : Nat} (h : st.Owned)
    (hk : key < st.blockMapping.length) (hat : st.at? key = some a)
    (hlt : pages a.size.toNat < pages size) {r : ErrorCode × Store}
    (hr : r =
      (let got := st.blockController.getBlocks opt (pages size - pages a.size.toNat : Nat)
      let a := a.write (pages a.size.toNat) got.1.2
      if got.1.1 then
        (.success, (st.controller got.2).setAt key (some { a with size := size }))
      else (.diskIOFail, (st.controller got.2).setAt key (some a)))) :
    ResizeSpec st key size r := by
  have hold := h.full' hat
  have hown := h.at_key hk
  rw [hat, entryBlocks] at hown
  obtain ⟨howns, hstep, hfaults, hlen, hiff⟩ :=
    getBlocks_spec opt (pages size - pages a.size.toNat : Nat) hown
  rcases hgot : st.blockController.getBlocks opt (pages size - pages a.size.toNat : Nat) with
    ⟨⟨ok, ids⟩, bc⟩
  rw [hgot] at howns hstep hfaults hlen hiff hr
  have hframe : Frame (st.rest key) st.blockController bc := frame_of_poolStep _ hstep hfaults
  cases ok with
  | true =>
    have hlen : ids.length = pages size - pages a.size.toNat := by simpa using hlen rfl
    subst hr
    have htake := take_write_length ids hold (show pages size = _ by omega)
    obtain ⟨howned, -⟩ := owned_of_replace ((st.controller bc).setAt key
      (some { a.write (pages a.size.toNat) ids with size := size })) h hk rfl h.buffer
      (by simp [Addresses.write]; omega) (by
        simp only [Addresses.write]
        rw [htake, ← blocks_eq]
        refine howns.perm ?_
        rw [List.append_assoc]
        exact List.perm_append_comm_assoc _ _ _)
    exact ⟨touches_of_frame hk rfl hframe, howned, fun _ => ⟨rfl, _, at?_of_mapping hk rfl⟩⟩
  | false =>
    subst hr
    have hlt : st.blockController.faults < bc.faults :=
      lt_of_le_of_ne hfaults fun heq => Bool.false_ne_true (hiff.mp heq.symm)
    refine ⟨touches_of_frame hk rfl hframe, ?_, fun heq => absurd heq (ne_of_gt hlt)⟩
    refine (owned_of_same ((st.controller bc).setAt key
      (some (a.write (pages a.size.toNat) ids))) h hk rfl h.buffer ?_ ?_ ?_).1
    · rw [entryBlocks, write_blocks hold]
      exact howns.forget
    · rw [hat]
      rfl
    · intro b hb _
      obtain rfl := Option.some.inj hb
      simp only [Addresses.write, List.length_append, List.length_take]
      omega

theorem resize_spec {a : Addresses} (h : st.Owned) (hk : key < st.blockMapping.length)
    (hat : st.at? key = some a) (value : Bytes) :
    ResizeSpec st key value.length (st.resize opt key a value) := by
  have hold : (if a.size < 0 then 0 else pages a.size.toNat) = pages a.size.toNat := by
    split
    · rename_i hneg
      rw [Int.toNat_of_nonpos hneg.le]
      rfl
    · rfl
  unfold resize
  simp only [hold]
  split
  · rename_i hlt
    exact grow_spec opt h hk hat hlt rfl
  · rename_i hge
    have hfull := h.full' hat
    have hown := h.at_key hk
    rw [hat, entryBlocks, blocks_eq, ← List.take_append_drop (pages value.length)
      (a.slots.take (pages a.size.toNat)), List.append_assoc] at hown
    have hswap := hown.perm (List.perm_append_comm_assoc _ _ _)
    obtain ⟨hrel, -, -, hf, -⟩ := releaseBlocks_spec opt hswap
    have hframe := releaseBlocks_frame opt (st.rest key) hswap
    have htake : (a.slots.take (pages a.size.toNat)).take (pages value.length) =
        a.slots.take (pages value.length) := by
      rw [List.take_take, min_eq_left (by omega)]
    obtain ⟨howned, -⟩ := owned_of_replace ((st.controller
      (st.blockController.releaseBlocks opt
        ((a.slots.take (pages a.size.toNat)).drop (pages value.length)))).setAt key
        (some { a with size := value.length })) h hk rfl h.buffer (by omega) (by
          rw [← htake]
          exact hrel)
    exact ⟨touches_of_frame hk rfl hframe, howned, fun _ => ⟨rfl, _, at?_of_mapping hk rfl⟩⟩

theorem putCached_spec (h : st.Owned) (hk : key < st.blockMapping.length) (value : Bytes) :
    ResizeSpec st key value.length (st.putCached opt key value) := by
  unfold putCached
  cases hat : st.at? key with
  | some a => exact resize_spec opt h hk hat value
  | none =>
    simp only
    have hmap : (st.takeArray.setAt key (some .blank)).blockMapping =
        st.blockMapping.set key (some .blank) := by
      rw [setAt, takeArray_blockMapping]
    have hown := h.at_key hk
    rw [hat] at hown
    have hk' : key < (st.takeArray.setAt key (some .blank)).blockMapping.length := by
      rw [hmap, List.length_set]
      exact hk
    have hbc : (st.takeArray.setAt key (some .blank)).blockController = st.blockController :=
      takeArray_blockController
    have howned : (st.takeArray.setAt key (some .blank)).Owned := by
      refine AtKey.owned ⟨hmap, takeArray_buffer h.buffer⟩ h hk (hbc ▸ hown) ?_
      intro a ha h0
      obtain rfl := Option.some.inj ha
      exact absurd h0 (by decide)
    obtain ⟨ht, ho, hs⟩ := resize_spec opt howned hk' (at?_of_mapping hk hmap) value
    have ht0 : Touches key st (st.takeArray.setAt key (some .blank)) :=
      touches_of_frame hk hmap (by rw [hbc]; exact .refl _ _)
    exact ⟨ht0.trans ht, ho, fun heq => hs (by rw [hbc]; exact heq)⟩

theorem mergeCached_spec {a : Addresses} (newSize : Nat) (h : st.Owned)
    (hk : key < st.blockMapping.length) (hat : st.at? key = some a) :
    ResizeSpec st key newSize (st.mergeCached opt key newSize) := by
  unfold mergeCached
  rw [hat]
  simp only
  split
  · rename_i hlt
    exact grow_spec opt h hk hat hlt rfl
  · rename_i hge
    have hfull := h.full' hat
    have hown := h.at_key hk
    rw [hat, entryBlocks, blocks_eq] at hown
    obtain ⟨howned, -⟩ := owned_of_replace (st.setAt key (some { a with size := newSize }))
      h hk rfl h.buffer (by omega) (hown.sublist
        ((List.take_sublist_take_left (by omega)).append (.refl _)))
    exact ⟨touches_of_frame hk rfl (.refl _ _), howned, fun _ => ⟨rfl, _, at?_of_mapping hk rfl⟩⟩

theorem stored_of_append {st' : Store} {keep ids : List Int} {tail value : Bytes}
    {pages : Int → Bytes}
    (hat : st'.at? key =
      some ⟨(keep.length * PageSize + tail.length + value.length : Nat), keep ++ ids⟩)
    (hlen : ids.length = Sptag.pages (tail ++ value).length) (hnodup : ids.Nodup)
    {old : Int → Bytes} (hpages : st'.blockController.pages = writePages ids (tail ++ value) old)
    (hkeep : ∀ id ∈ keep, st'.blockController.pages id = pages id) :
    Stored key (readPages pages keep (keep.length * PageSize) ++ tail ++ value) st' := by
  have hsize : (readPages pages keep (keep.length * PageSize) ++ tail ++ value).length =
      keep.length * PageSize + tail.length + value.length := by
    rw [List.length_append, List.length_append, readPages_length]
  refine ⟨keep ++ ids, by rw [hsize]; exact hat, ?_, ?_⟩
  · rw [hsize, List.length_append, hlen, List.length_append, pages_eq, pages_eq, PageSize]
    omega
  · have hsub : keep.length * PageSize + tail.length + value.length - keep.length * PageSize =
        (tail ++ value).length := by
      rw [List.length_append]
      omega
    rw [hsize, readPages_append _ _ _ (by omega), readPages_congr hkeep, hsub, hpages,
      readPages_writePages hnodup hlen, List.append_assoc]

structure MergeSpec (opt : Options) (st : Store) (key : Nat) (value : Bytes) (newSize : Nat)
    (a : Addresses)
    (r : ErrorCode × Store) : Prop where
  touches : Touches key st r.2
  owned : r.2.Owned
  sized : st.SizedAt key → r.2.SizedAt key
  stored : r.2.blockController.faults = st.blockController.faults →
    newSize = a.size.toNat + value.length → pages newSize ≤ opt.reqs →
    r.1 = .success ∧
      Stored key (readPages st.blockController.pages a.blocks a.size.toNat ++ value) r.2

theorem MergeSpec.failed {value : Bytes} {newSize : Nat} {a : Addresses} {st' : Store}
    {e : ErrorCode} (ht : Touches key st st')
    (howned : st'.Owned ∧ (st.SizedAt key → st'.SizedAt key))
    (hfaults : newSize = a.size.toNat + value.length → pages newSize ≤ opt.reqs →
      st.blockController.faults < st'.blockController.faults) :
    MergeSpec opt st key value newSize a (e, st') :=
  ⟨ht, howned.1, howned.2, fun heq hnew hreqs => absurd heq (ne_of_gt (hfaults hnew hreqs))⟩

theorem MergeSpec.done {value : Bytes} (tail : Bytes) {newSize : Nat} {a : Addresses} {st' : Store}
    {keep ids : List Int} {old : Int → Bytes} (h : st.Owned)
    (hk : key < st.blockMapping.length)
    (hmap : st'.blockMapping = st.blockMapping.set key (some ⟨newSize, keep ++ ids⟩))
    (hbuf : bufferLimit ≤ st'.buffer) (hlen : keep.length + ids.length = pages newSize)
    (howns : st'.blockController.Owns (keep ++ ids ++ st.rest key))
    (hframe : Frame (keep ++ st.rest key) st.blockController st'.blockController)
    (hpages : st'.blockController.pages = writePages ids (tail ++ value) old)
    (htail : st'.blockController.faults = st.blockController.faults →
      newSize = a.size.toNat + value.length → pages newSize ≤ opt.reqs →
      a.size.toNat = keep.length * PageSize + tail.length ∧
        readPages st.blockController.pages a.blocks a.size.toNat =
          readPages st.blockController.pages keep (keep.length * PageSize) ++ tail) :
    MergeSpec opt st key value newSize a (.success, st') := by
  have htake : (keep ++ ids).take (pages newSize) = keep ++ ids :=
    List.take_of_length_le (by rw [List.length_append]; omega)
  obtain ⟨howned, hsized⟩ := owned_of_replace st' h hk hmap hbuf
    (by rw [List.length_append]; omega) (by rw [htake]; exact howns)
  refine ⟨touches_of_frame hk hmap (hframe.mono fun id hid => List.mem_append_right _ hid),
    howned, fun _ => hsized, fun heq hnew hreqs => ⟨rfl, ?_⟩⟩
  obtain ⟨hsize, hread⟩ := htail heq hnew hreqs
  have hnodup : ids.Nodup := by
    have hused := (List.nodup_append'.mp howns.partition.nodup).2.1
    exact (List.nodup_append'.mp (List.nodup_append'.mp hused).1).2.1
  rw [hread]
  refine stored_of_append ?_ ?_ hnodup hpages fun id hid =>
    hframe.pages id (List.mem_append_left _ hid)
  · rw [at?_of_mapping hk hmap, hnew, hsize]
  · rw [pages_eq] at hlen
    rw [List.length_append, pages_eq]
    rw [PageSize] at hsize
    omega

theorem mergeBlocks_aligned {a : Addresses} (value : Bytes) (newSize : Nat) (h : st.Owned)
    (hk : key < st.blockMapping.length) (hat : st.at? key = some a)
    (hpage : a.size.toNat % PageSize = 0) :
    MergeSpec opt st key value newSize a (st.mergeBlocks opt key value newSize) := by
  have hfull := h.full' hat
  have hdiv : a.size.toNat = a.size.toNat / PageSize * PageSize := by
    have := Nat.div_add_mod' a.size.toNat PageSize
    omega
  have hq : pages a.size.toNat = a.size.toNat / PageSize := by
    rw [pages_eq]
    rw [PageSize] at hpage ⊢
    omega
  have hblocks := blocks_eq a
  have hkeep : (a.slots.take (pages a.size.toNat)).length = pages a.size.toNat :=
    List.length_take_of_le hfull
  have hown := h.at_key hk
  rw [hat, entryBlocks, hblocks] at hown
  unfold mergeBlocks
  rw [hat]
  simp only [hpage, ne_eq, not_true, if_false]
  rw [← hq] at hdiv ⊢
  obtain ⟨hframe, hspec⟩ := allocate_spec opt
    ((pages newSize : Int) - pages a.size.toNat) value hown
  have hkept : ∀ ids bc, (newSize = a.size.toNat + value.length →
        st.blockController.faults < bc.faults) →
      bc.Owns (a.slots.take (pages a.size.toNat) ++ st.rest key) →
      Frame (a.slots.take (pages a.size.toNat) ++ st.rest key) st.blockController bc →
      MergeSpec opt st key value newSize a
        (.diskIOFail, (st.controller bc).setAt key (some (a.write (pages a.size.toNat) ids))) := by
    intro ids bc hlt howns hf
    refine .failed opt (touches_of_frame hk rfl (hf.mono fun id hid => List.mem_append_right _ hid))
      ?_ fun hnew _ => hlt hnew
    refine owned_of_same _ h hk rfl h.buffer ?_ ?_ ?_
    · rw [entryBlocks, write_blocks hfull, hblocks]
      exact howns
    · rw [hat]
      rfl
    · intro b hb _
      obtain rfl := Option.some.inj hb
      simp only [Addresses.write, List.length_append, List.length_take]
      omega
  rcases halloc : allocate opt st.blockController ((pages newSize : Int) - pages a.size.toNat) value
    with ⟨ids | ids | ids, bc⟩
  all_goals rw [halloc] at hframe hspec
  · obtain ⟨howns, hlen, hpos, -, hpages⟩ := hspec
    refine .done opt [] h hk rfl h.buffer ?_ ?_ hframe hpages fun _ _ _ => ⟨?_, ?_⟩
    · rw [hkeep]
      omega
    · refine howns.perm ?_
      rw [List.append_assoc]
      exact List.perm_append_comm_assoc _ _ _
    · rw [hkeep, List.length_nil, Nat.add_zero]
      exact hdiv
    · rw [hblocks, hkeep, ← hdiv, List.append_nil]
  · exact hkept ids bc (fun _ => hspec.2) hspec.1 hframe
  · refine hkept ids bc (fun hnew => (hspec.2 ?_).1) hspec.1 hframe
    rw [pages_eq, pages_eq]
    omega

theorem pages_of_partial {n : Nat} (h : n % PageSize ≠ 0) : pages n = n / PageSize + 1 := by
  rw [PageSize] at h
  rw [pages_eq, PageSize]
  omega

theorem pages_mod {n : Nat} (h : n % PageSize ≠ 0) : pages (n % PageSize) = 1 := by
  rw [PageSize] at h
  rw [pages_eq, PageSize]
  omega

theorem blocks_concat {a : Addresses} {q : Nat} (hpages : pages a.size.toNat = q + 1)
    (hfull : pages a.size.toNat ≤ a.slots.length) :
    a.blocks = a.slots.take q ++ [a.slots.getD q (-1)] := by
  rw [blocks_eq a, hpages, List.take_add_one, List.getD_eq_getElem?_getD]
  rw [List.getElem?_eq_getElem (by omega)]
  rfl

theorem length_readPages_one (pages : Int → Bytes) (id : Int) {r : Nat} (hr : r ≤ PageSize) :
    (readPages pages [id] r).length = r := by
  rw [readPages, readPages, readPage, min_eq_left hr]
  simp only [List.rightpad, List.append_nil, List.length_append, List.length_take,
    List.length_replicate]
  omega

theorem readPages_concat (pages : Int → Bytes) (keep : List Int) (id : Int) (r : Nat) :
    readPages pages (keep ++ [id]) (keep.length * PageSize + r) =
      readPages pages keep (keep.length * PageSize) ++ readPages pages [id] r := by
  rw [readPages_append _ _ _ (by omega), Nat.add_sub_cancel_left]

theorem perm_last (ids keep rest : List Int) (last : Int) :
    (ids ++ (keep ++ [last] ++ rest)).Perm ([last] ++ (keep ++ ids ++ rest)) := by
  simp only [List.append_assoc, List.singleton_append]
  refine (List.perm_append_comm_assoc _ _ _).trans ?_
  rw [← List.append_assoc]
  refine List.perm_middle.trans ?_
  rw [List.append_assoc]

/-- What the last page holds, where the read did not fail. -/
theorem readLast_eq {bc : BlockController} {n : Nat} {last : Int} {keep : List Int}
    {newValue : Bytes} (hr : n % PageSize ≠ 0) (hkeep : keep.length = n / PageSize)
    (hread : some newValue = some (readPages bc.pages ([last].take
      (pages ((n % PageSize : Nat) : Int).toNat)) ((n % PageSize : Nat) : Int).toNat)) :
    n = keep.length * PageSize + newValue.length ∧
      readPages bc.pages (keep ++ [last]) n =
        readPages bc.pages keep (keep.length * PageSize) ++ newValue := by
  have hdiv : keep.length * PageSize + n % PageSize = n := hkeep ▸ Nat.div_add_mod' n PageSize
  have hnew := Option.some.inj hread
  rw [Int.toNat_natCast, pages_mod hr, List.take_of_length_le (by simp)] at hnew
  have hlen : newValue.length = n % PageSize := by
    rw [hnew, length_readPages_one _ _ (Nat.mod_lt _ (by decide)).le]
  refine ⟨by rw [hlen, hdiv], ?_⟩
  rw [hnew, ← readPages_concat, hdiv]

theorem last_reqs {a : Addresses} {length newSize : Nat} (hpage : a.size.toNat % PageSize ≠ 0)
    (hnew : newSize = a.size.toNat + length) (hreqs : pages newSize ≤ opt.reqs) :
    pages ((a.size.toNat % PageSize : Nat) : Int).toNat ≤ opt.reqs := by
  have hpos : 0 < newSize := by
    have := Nat.mod_le a.size.toNat PageSize
    omega
  rw [pages_eq] at hreqs
  rw [Int.toNat_natCast, pages_mod hpage]
  omega

/-- A merge that fails leaves the mapping as it was. -/
theorem mergeSpec_unchanged {a : Addresses} {value : Bytes} {newSize : Nat} {st' : Store}
    {e : ErrorCode} (h : st.Owned) (hk : key < st.blockMapping.length) (hat : st.at? key = some a)
    (hmap : st'.blockMapping = st.blockMapping) (hbuf : bufferLimit ≤ st'.buffer)
    (howns : st'.blockController.Owns (a.blocks ++ st.rest key))
    (hframe : Frame (a.blocks ++ st.rest key) st.blockController st'.blockController)
    (hlt : newSize = a.size.toNat + value.length → pages newSize ≤ opt.reqs →
      st.blockController.faults < st'.blockController.faults) :
    MergeSpec opt st key value newSize a (e, st') := by
  have hrest : Frame (st.rest key) st.blockController st'.blockController :=
    hframe.mono fun id hid => List.mem_append_right _ hid
  refine .failed opt (touches_of_frame (r := st.at? key) hk ?_ hrest) ?_ hlt
  · exact hmap.trans (set_at?_self hk).symm
  · exact owned_of_controller h hk hmap hbuf (hat ▸ howns)

theorem mergeBlocks_partial {a : Addresses} (value : Bytes) (newSize : Nat) (h : st.Owned)
    (hk : key < st.blockMapping.length) (hat : st.at? key = some a)
    (hpage : a.size.toNat % PageSize ≠ 0) :
    MergeSpec opt st key value newSize a (st.mergeBlocks opt key value newSize) := by
  have hfull := h.full' hat
  have hpages := pages_of_partial hpage
  have hlast := blocks_concat hpages hfull
  have hkeep : (a.slots.take (a.size.toNat / PageSize)).length = a.size.toNat / PageSize :=
    List.length_take_of_le (by omega)
  have hown := h.at_key hk
  rw [hat, entryBlocks] at hown
  have hbuf : bufferLimit ≤ st.buffer - 1 + 1 := by
    have := h.buffer
    omega
  unfold mergeBlocks
  rw [hat]
  simp only [hpage, ne_eq, not_false_eq_true, if_true]
  obtain ⟨hpool, hrp, hrw, hrf, hread⟩ := readBlocks_spec opt st.blockController
    (a.size.toNat % PageSize : Nat) [a.slots.getD (a.size.toNat / PageSize) (-1)]
  rcases hgot : st.blockController.readBlocks opt (a.size.toNat % PageSize : Nat)
    [a.slots.getD (a.size.toNat / PageSize) (-1)] with ⟨got, bc0⟩
  rw [hgot] at hpool hrp hrw hrf hread
  have hframe0 : Frame (a.blocks ++ st.rest key) st.blockController bc0 :=
    ⟨fun id _ => by rw [hrp], by rw [hrw], hrf⟩
  have hown0 := hpool.owns hown
  cases got with
  | none =>
    refine mergeSpec_unchanged opt h hk hat rfl h.buffer hown0 hframe0 fun hnew hreqs => ?_
    exact lt_of_le_of_ne hrf fun heq =>
      Option.some_ne_none _ (hread heq.symm (last_reqs opt hpage hnew hreqs)).symm
  | some newValue =>
    obtain ⟨hframe1, hspec⟩ := allocate_spec opt
      ((pages newSize : Int) - (a.size.toNat / PageSize : Nat)) (newValue ++ value) hown0
    have hframe := hframe0.trans hframe1
    have hbc : ((st.controller bc0).popBuffer).blockController = bc0 := rfl
    simp only [hbc]
    rcases halloc : allocate opt bc0 ((pages newSize : Int) - (a.size.toNat / PageSize : Nat))
      (newValue ++ value) with ⟨ids | ids | ids, bc⟩
    all_goals rw [halloc] at hframe hspec
    · obtain ⟨howns, hlen, hpos, hfaults, hwrote⟩ := hspec
      rw [hlast] at howns
      have howns := howns.perm (perm_last _ _ _ _)
      obtain ⟨hrel, hrelp, hrelio, hrelf, -⟩ := releaseBlocks_spec opt howns
      refine .done opt newValue h hk rfl hbuf ?_ hrel ?_ (hrelp.trans hwrote)
        fun heq hsum hreqs => ?_
      · rw [hkeep]
        omega
      · have hf := hframe.trans (releaseBlocks_frame opt _ howns)
        refine hf.mono fun id hid => ?_
        rw [hlast, List.append_assoc]
        rcases List.mem_append.mp hid with hid | hid
        · exact List.mem_append_left _ hid
        · exact List.mem_append_right _ (List.mem_append_right _ hid)
      · have hsame : bc0.faults = st.blockController.faults := by
          rw [← hfaults, ← hrelf]
          exact heq
        rw [hlast]
        exact readLast_eq hpage hkeep (hread hsame (last_reqs opt hpage hsum hreqs))
    · exact mergeSpec_unchanged opt h hk hat rfl hbuf hspec.1 hframe
        fun _ _ => lt_of_le_of_lt hrf hspec.2
    · refine mergeSpec_unchanged opt h hk hat rfl hbuf hspec.1 hframe
        fun hnew _ => lt_of_le_of_lt hrf (hspec.2 ?_).1
      have hle := Nat.div_mul_le_self a.size.toNat PageSize
      rw [pages_eq]
      rw [PageSize] at hle ⊢
      omega

theorem mergeBlocks_spec {a : Addresses} (value : Bytes) (newSize : Nat) (h : st.Owned)
    (hk : key < st.blockMapping.length) (hat : st.at? key = some a) :
    MergeSpec opt st key value newSize a (st.mergeBlocks opt key value newSize) := by
  by_cases hpage : a.size.toNat % PageSize = 0
  · exact mergeBlocks_aligned opt value newSize h hk hat hpage
  · exact mergeBlocks_partial opt value newSize h hk hat hpage

theorem deleteBlocks_spec (h : st.Owned) (hk : key < st.blockMapping.length) :
    Touches key st (st.deleteBlocks opt key).2 ∧ (st.deleteBlocks opt key).2.Owned ∧
      (st.deleteBlocks opt key).2.blockController.faults = st.blockController.faults ∧
      ((∃ a, st.at? key = some a ∧ 0 ≤ a.size) →
        (st.deleteBlocks opt key).1 = .success ∧ (st.deleteBlocks opt key).2.at? key = none) ∧
      ((¬ ∃ a, st.at? key = some a ∧ 0 ≤ a.size) →
        (st.deleteBlocks opt key).1 = .keyNotFound ∧ (st.deleteBlocks opt key).2 = st) := by
  have hown := h.at_key hk
  unfold deleteBlocks
  cases hat : st.at? key with
  | none =>
    refine ⟨.refl _ _, h, rfl, ?_, fun _ => ⟨rfl, rfl⟩⟩
    rintro ⟨a, ha, -⟩
    cases ha
  | some a =>
    simp only
    split
    · rename_i hneg
      refine ⟨.refl _ _, h, rfl, ?_, fun _ => ⟨rfl, rfl⟩⟩
      rintro ⟨b, hb, hb0⟩
      obtain rfl := Option.some.inj hb
      exact absurd hneg (not_lt.mpr hb0)
    · rename_i hpos
      rw [hat, entryBlocks] at hown
      obtain ⟨hrel, -, -, hrf, -⟩ := releaseBlocks_spec opt hown
      have hframe := releaseBlocks_frame opt (st.rest key) hown
      refine ⟨touches_of_frame (r := none) hk rfl hframe, ?_, hrf,
        fun _ => ⟨rfl, at?_of_mapping (r := none) hk rfl⟩, fun hno => ?_⟩
      · have hs : AtKey key none st (((st.controller (st.blockController.releaseBlocks opt
            a.blocks)).pushBuffer).setAt key none) := ⟨rfl, Nat.le_succ_of_le h.buffer⟩
        refine hs.owned h hk hrel ?_
        intro b hb
        cases hb
      · exact absurd ⟨a, rfl, not_lt.mp hpos⟩ hno

@[simp] theorem at?_reach (key k : Nat) : (st.reach key).at? k = st.at? k := by
  unfold at? reach
  rw [List.getElem?_append]
  split
  · rfl
  · rename_i hge
    rw [List.getElem?_eq_none (not_lt.mp hge), List.getElem?_replicate]
    split <;> rfl

theorem lt_length_reach (key : Nat) : key < (st.reach key).blockMapping.length := by
  simp only [reach, List.length_append, List.length_replicate]
  omega

theorem length_le_reach (key : Nat) :
    st.blockMapping.length ≤ (st.reach key).blockMapping.length := by
  simp only [reach, List.length_append]
  omega

theorem reach_owned (key : Nat) (h : st.Owned) : (st.reach key).Owned := by
  refine ⟨?_, ?_, h.buffer⟩
  · simp only [reach, mapped_append_none]
    exact h.owns
  · intro k a ha
    rw [at?_reach] at ha
    exact h.full k a ha

theorem at?_lt_length {a : Addresses} {k : Nat} (h : st.at? k = some a) :
    k < st.blockMapping.length := by
  by_contra hge
  rw [at?, List.getElem?_eq_none (not_lt.mp hge)] at h
  cases h

theorem blocks_mem_rest {a : Addresses} {k : Nat} (hat : st.at? k = some a) (hne : k ≠ key) :
    ∀ id ∈ a.blocks, id ∈ st.rest key := by
  intro id hid
  refine List.mem_flatMap.mpr ⟨some a, ?_, hid⟩
  rw [List.mem_iff_getElem?]
  refine ⟨k, ?_⟩
  rw [List.getElem?_set_ne (Ne.symm hne)]
  simpa only [at?, Option.join_eq_some_iff] using hat

end Store

end Sptag.SPANN
