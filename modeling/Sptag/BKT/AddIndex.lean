import Sptag.Common.MetadataSet
import Sptag.Common.Rows

/-! `Index<T>::AddIndex` of `src/Core/BKT/BKTIndex.cpp`, on an index that has samples: how its
containers grow by one batch. What comes after it in `AddIndex` writes into rows
that are there. -/

namespace Sptag.BKT.AddIndex

open Lib COMMON.Rows

structure NeighborhoodGraph where
  m_pNeighborhoodGraph : Dataset Int
  m_iGraphSize : Nat

structure Index (T : Type) where
  m_pSamples : Dataset T
  m_pGraph : NeighborhoodGraph
  m_deletedID : Dataset Int
  m_pMetadata : Option MetadataSet

structure Memory where
  samples : Nat → Bool
  graph : Nat → Bool
  deletedID : Nat → Bool
  fresh : Nat → Nat
  grow : Nat → Nat

namespace NeighborhoodGraph

def addBatch (alloc : Nat → Bool) (num : Nat) (g : NeighborhoodGraph) :
    Option (ErrorCode × NeighborhoodGraph) := do
  let (ret, rows) ← g.m_pNeighborhoodGraph.addBatch (-1) alloc num none
  if ret ≠ .success then return (ret, { g with m_pNeighborhoodGraph := rows })
  else return (.success, ⟨rows, g.m_iGraphSize + num⟩)

def setR (rows : Nat) (g : NeighborhoodGraph) : NeighborhoodGraph :=
  ⟨g.m_pNeighborhoodGraph.setR rows, rows⟩

end NeighborhoodGraph

namespace Index

section Source

variable {T : Type} (mem : Memory) (fill : T)

def addRows (p_data : Nat → T) (p_vectorNum : Nat) (index : Index T) :
    Option (ErrorCode × Index T) := do
  let (ret, samples) ← index.m_pSamples.addBatch fill mem.samples p_vectorNum (some p_data)
  let index := { index with m_pSamples := samples }
  if ret ≠ .success then return (ret, index)
  else
    let (ret, graph) ← index.m_pGraph.addBatch mem.graph p_vectorNum
    let index := { index with m_pGraph := graph }
    if ret ≠ .success then return (ret, index)
    else
      let (ret, deletedID) ← index.m_deletedID.addBatch (-1) mem.deletedID p_vectorNum none
      return (ret, { index with m_deletedID := deletedID })

def setR (R : Nat) (index : Index T) : Index T :=
  { index with
    m_pSamples := index.m_pSamples.setR R
    m_pGraph := index.m_pGraph.setR R
    m_deletedID := index.m_deletedID.setR R }

def addMetadata (p_vectorNum : Nat) (p_metadataSet : Option MetadataSet) (m : MetadataSet) :
    Option MetadataSet :=
  match p_metadataSet with
  | some data => data.addBatch mem.fresh mem.grow m
  | none => (List.range p_vectorNum).foldlM (fun m _ => m.add mem.fresh mem.grow []) m

def addIndex (p_data : Option (Nat → T)) (p_vectorNum p_dimension : Nat)
    (p_metadataSet : Option MetadataSet) (index : Index T) : Option (ErrorCode × Index T) :=
  match p_data with
  | none => some (.emptyData, index)
  | some elements =>
    if p_vectorNum = 0 ∨ p_dimension = 0 then some (.emptyData, index)
    else if p_dimension ≠ index.m_pSamples.mycols then some (.dimensionSizeMismatch, index)
    else do
      let first := index.m_pSamples.count
      let (ret, index) ← index.addRows mem fill elements p_vectorNum
      if ret ≠ .success then return (.memoryOverFlow, index.setR first)
      else
        match index.m_pMetadata with
        | none => return (.success, index)
        | some m => do
          let m ← addMetadata mem p_vectorNum p_metadataSet m
          return (.success, { index with m_pMetadata := some m })

end Source

variable {T : Type} {d : Dataset T} {R num : Nat}

structure Sized (d : Dataset T) (R : Nat) : Prop where
  own : d.colStart = 0
  ready : d.data ≠ none
  room : d.incRows ≤ Blocks.room d.rowsInBlockEx d.incBlocks
  count : d.count = R

theorem Sized.addBatch (h : Sized d R) (fill : T) (alloc : Nat → Bool) (num : Nat)
    (pData : Option (Nat → T)) : ∃ code d', d.addBatch fill alloc num pData = some (code, d') ∧
      (code = .success ∧ Fits d alloc num ∧ Sized d' (R + num) ∨
        code ≠ .success ∧ ¬ Fits d alloc num ∧ Sized d' R) := by
  simp only [Dataset.addBatch, if_neg (not_not_intro h.own)]
  by_cases hfull : d.maxRows < d.count + num
  · rw [if_pos hfull]
    exact ⟨_, d, rfl, .inr ⟨by decide, fun hfits => hfits.1.not_gt hfull, h⟩⟩
  · rw [if_neg hfull, if_neg fun hnone => h.ready (Option.isNone_iff_eq_none.mp hnone.1)]
    obtain ⟨ok, blocks, hblocks, hfills⟩ :=
      Blocks.fill_all alloc (fun _ => newRow fill d.mycols none 0) num
      (pData.map fun elements => (List.range num).map
        (newRow fill d.mycols (some fun i j => elements (i * d.mycols + j)))) h.room
    have hfits : ok = true ↔ Fits d alloc num := by
      refine (hfills.ok_iff fun data hdata => ?_).trans ?_
      · obtain ⟨elements, -, rfl⟩ := Option.map_eq_some_iff.mp hdata
        simp
      · simp [Fits, not_lt.mp hfull]
    rw [hblocks]
    cases ok with
    | true =>
      refine ⟨_, _, rfl, .inl ⟨rfl, hfits.mp rfl, h.own, h.ready, hfills.enough rfl, ?_⟩⟩
      rw [← h.count, Dataset.count, Dataset.count, Nat.add_assoc]
    | false =>
      refine ⟨_, _, rfl, .inr ⟨by decide, fun hfit =>
        Bool.false_ne_true (hfits.mpr hfit), h.own, h.ready, ?_,
        h.count⟩⟩
      exact h.room.trans hfills.room

theorem Sized.setR (h : Sized d R) {S : Nat} (hS : S ≤ R) : Sized (d.setR S) S := by
  have hcount : d.rows + d.incRows = R := h.count
  have hroom := h.room
  unfold Dataset.setR
  by_cases hrows : d.rows ≤ S
  · rw [if_pos hrows]
    refine ⟨h.own, h.ready, (show S - d.rows ≤ d.incRows by omega).trans hroom, ?_⟩
    exact Nat.add_sub_cancel' hrows
  · rw [if_neg hrows]
    exact ⟨h.own, h.ready, Nat.zero_le _, rfl⟩

/-- An index with this many samples, and as many rows for them in the graph and among the labels. -/
structure Level (index : Index T) (R : Nat) : Prop where
  pos : 0 < R
  samples : Sized index.m_pSamples R
  graph : Sized index.m_pGraph.m_pNeighborhoodGraph R
  graphSize : index.m_pGraph.m_iGraphSize = R
  deletedID : Sized index.m_deletedID R

def Grows (mem : Memory) (num : Nat) (index : Index T) : Prop :=
  Fits index.m_pSamples mem.samples num ∧ Fits index.m_pGraph.m_pNeighborhoodGraph mem.graph num ∧
    Fits index.m_deletedID mem.deletedID num

variable {index : Index T}

theorem Level.addRows (h : index.Level R) (mem : Memory) (fill : T) (p_data : Nat → T) (num : Nat) :
    ∃ ret index', index.addRows mem fill p_data num = some (ret, index') ∧
      index'.m_pMetadata = index.m_pMetadata ∧
      (ret = .success ∧ index.Grows mem num ∧ index'.Level (R + num) ∨
        ret ≠ .success ∧ ¬ index.Grows mem num ∧ (index'.setR R).Level R) := by
  have hback : ∀ {S : Nat}, R ≤ R + S := fun {S} => Nat.le_add_right R S
  obtain ⟨ret₁, samples, hsamples, hone⟩ := h.samples.addBatch fill mem.samples num (some p_data)
  obtain ⟨ret₂, graph, hgraph, htwo⟩ := h.graph.addBatch (-1) mem.graph num none
  obtain ⟨ret₃, deletedID, hdeleted, hthree⟩ := h.deletedID.addBatch (-1) mem.deletedID num none
  simp only [Index.addRows, hsamples, Option.bind_eq_bind, Option.bind_some]
  rcases hone with ⟨rfl, hfits₁, hsized₁⟩ | ⟨hfail, hnot, hsized₁⟩
  · simp only [NeighborhoodGraph.addBatch, hgraph, ne_eq, not_true_eq_false, if_false,
      Option.bind_eq_bind,
      Option.bind_some]
    rcases htwo with ⟨rfl, hfits₂, hsized₂⟩ | ⟨hfail, hnot, hsized₂⟩
    · simp only [not_true_eq_false, if_false, Option.pure_def, Option.bind_some, hdeleted]
      refine ⟨_, _, rfl, rfl, ?_⟩
      rcases hthree with ⟨rfl, hfits₃, hsized₃⟩ | ⟨hfail, hnot, hsized₃⟩
      · exact .inl ⟨rfl, ⟨hfits₁, hfits₂, hfits₃⟩, Nat.add_pos_left h.pos num, hsized₁, hsized₂,
          congrArg (· + num) h.graphSize, hsized₃⟩
      · exact .inr ⟨hfail, fun hgrows => hnot hgrows.2.2, h.pos, hsized₁.setR hback,
          hsized₂.setR hback, rfl,
          hsized₃.setR le_rfl⟩
    · simp only [if_pos hfail, Option.pure_def, Option.bind_some]
      exact ⟨_, _, rfl, rfl, .inr ⟨hfail, fun hgrows => hnot hgrows.2.1, h.pos, hsized₁.setR hback,
        hsized₂.setR le_rfl, rfl, h.deletedID.setR le_rfl⟩⟩
  · simp only [ne_eq, if_pos hfail]
    exact ⟨_, _, rfl, rfl, .inr ⟨hfail, fun hgrows => hnot hgrows.1, h.pos, hsized₁.setR le_rfl,
      h.graph.setR le_rfl, rfl, h.deletedID.setR le_rfl⟩⟩

/-- The rows of the samples, of the graph and as it counts them, of the labels and of the
metadata. -/
def counts (index : Index T) : Nat × Nat × Nat × Nat × Option Nat :=
  (index.m_pSamples.count, index.m_pGraph.m_pNeighborhoodGraph.count, index.m_pGraph.m_iGraphSize,
    index.m_deletedID.count, index.m_pMetadata.map MetadataSet.count)

theorem Level.counts_eq {index' : Index T} (h : index.Level R) (h' : index'.Level R)
    (hmetadata : index'.m_pMetadata = index.m_pMetadata) : index'.counts = index.counts := by
  simp only [counts, h.samples.count, h.graph.count, h.graphSize, h.deletedID.count,
    h'.samples.count,
    h'.graph.count, h'.graphSize, h'.deletedID.count, hmetadata]

/-- A call that fails changes no count; after one that succeeds the metadata has an entry for each
sample, and these are the entries. -/
structure AllOrNothing (before : Index T) (metas : List (List UInt8)) (code : ErrorCode)
    (after : Index T) : Prop where
  nothing : code ≠ .success → after.counts = before.counts
  all : code = .success → ∀ m, after.m_pMetadata = some m →
    m.count = after.m_pSamples.count ∧ m.Gives metas

variable {metas entries : List (List UInt8)}

theorem taken_eq_iff {m : MetadataSet} :
    (m.taken entries).length = entries.length ↔ ∀ n, m.room = some n → entries.length ≤ n := by
  unfold MetadataSet.taken
  cases m.room with
  | none => simp
  | some n => simp

theorem taken_eq {m : MetadataSet} (h : ∀ n, m.room = some n → entries.length ≤ n) :
    m.taken entries = entries := by
  unfold MetadataSet.taken
  cases hroom : m.room with
  | none => rfl
  | some n => exact List.take_of_length_le (h n hroom)

theorem room_of_foldlM (fresh grow : Nat → Nat) {m m' : MetadataSet} (h : m.Shows metas)
    (hm' : entries.foldlM (MetadataSet.add fresh grow) m = some m') :
    m'.room = m.room.map (· - entries.length) := by
  induction entries generalizing m metas with
  | nil =>
    obtain rfl := Option.some.inj hm'
    cases m.room <;> rfl
  | cons data entries ih =>
    rw [List.foldlM_cons] at hm'
    cases m with
    | file m =>
      obtain ⟨m₁, hm₁, hroom, hshows⟩ := MetadataSet.add_file fresh grow h data
      rw [hm₁] at hm'
      rw [ih hshows hm', hroom]
      rfl
    | mem m =>
      obtain ⟨m₁, hm₁, hadded, hdropped⟩ := MetadataSet.add_mem fresh grow h data
      rw [hm₁] at hm'
      by_cases hfits : m.m_offsets.size + 1 ≤ m.m_offsets.maxSize
      · obtain ⟨hroom, hshows⟩ := hadded hfits
        rw [ih hshows hm', hroom, MetadataSet.room, Option.map_some, Option.map_some,
          List.length_cons]
        congr 1
        omega
      · obtain ⟨hroom, hshows⟩ := hdropped hfits
        rw [ih hshows hm', hroom, MetadataSet.room, Option.map_some, Option.map_some]
        congr 1
        omega

structure Called (mem : Memory) (p_data : Option (Nat → T)) (num p_dimension : Nat)
    (index : Index T) :
    Prop where
  data : p_data ≠ none
  pos : num ≠ 0
  dimension : p_dimension ≠ 0 ∧ p_dimension = index.m_pSamples.mycols
  grows : index.Grows mem num

theorem addMetadata_eq (mem : Memory) (num : Nat) {m p_metadataSet : MetadataSet}
    (hm : m.Shows metas)
    (hentries : p_metadataSet.Gives entries) :
    ∃ m', addMetadata mem num (some p_metadataSet) m = some m' ∧
      m'.Shows (metas ++ m.taken entries) ∧
      m'.room = m.room.map (· - entries.length) := by
  obtain ⟨m', hm', hshows⟩ := MetadataSet.foldlM_add mem.fresh mem.grow hm entries
  exact ⟨m', (hentries.addBatch_eq mem.fresh mem.grow).trans hm', hshows,
    room_of_foldlM mem.fresh mem.grow hm hm'⟩

/-- A call that fails leaves the rows and the metadata; one that succeeds adds the batch to the
rows, and to the metadata what that takes of it. -/
theorem Level.addIndex (h : index.Level R) (mem : Memory) (fill : T) (p_data : Option (Nat → T))
    (p_dimension : Nat) {p_metadataSet : MetadataSet}
    (hmetas : ∀ m, index.m_pMetadata = some m → m.Shows metas)
    (hentries : p_metadataSet.Gives entries) :
    ∃ code index', index.addIndex mem fill p_data entries.length p_dimension (some p_metadataSet) =
        some (code, index') ∧
      (code ≠ .success ∧ ¬ index.Called mem p_data entries.length p_dimension ∧ index'.Level R ∧
          index'.m_pMetadata = index.m_pMetadata ∨
        code = .success ∧ index.Called mem p_data entries.length p_dimension ∧
          index'.Level (R + entries.length) ∧
            (index.m_pMetadata = none → index'.m_pMetadata = none) ∧
          ∀ m, index.m_pMetadata = some m →
            ∃ m', index'.m_pMetadata = some m' ∧ m'.Shows (metas ++ m.taken entries) ∧
              m'.room = m.room.map (· - entries.length)) := by
  cases p_data with
  | none => exact ⟨_, index, rfl, .inl ⟨by decide, fun hcalled => hcalled.data rfl, h, rfl⟩⟩
  | some elements =>
    simp only [Index.addIndex]
    by_cases hempty : entries.length = 0 ∨ p_dimension = 0
    · rw [if_pos hempty]
      refine ⟨_, index, rfl, .inl ⟨by decide, fun hcalled => ?_, h, rfl⟩⟩
      exact hempty.elim hcalled.pos hcalled.dimension.1
    · rw [if_neg hempty]
      by_cases hdim : p_dimension = index.m_pSamples.mycols
      · rw [if_neg (not_not_intro hdim)]
        obtain ⟨ret, index', hrows, hsame, hcase⟩ := h.addRows mem fill elements entries.length
        simp only [hrows, h.samples.count, Option.bind_eq_bind, Option.bind_some]
        rcases hcase with ⟨rfl, hgrows, hlevel⟩ | ⟨hfail, hnot, hlevel⟩
        · have hcalled : index.Called mem (some elements) entries.length p_dimension :=
            ⟨Option.some_ne_none _, (not_or.mp hempty).1, ⟨(not_or.mp hempty).2, hdim⟩, hgrows⟩
          simp only [ne_eq, not_true_eq_false, if_false, hsame]
          cases hmeta : index.m_pMetadata with
          | none =>
            refine ⟨_, index', rfl, .inr ⟨rfl, hcalled, hlevel, fun _ =>
              hsame.trans hmeta, fun m hm => ?_⟩⟩
            cases hm
          | some m =>
            obtain ⟨m', hm', hadded⟩ := addMetadata_eq mem entries.length (hmetas m hmeta) hentries
            simp only [hm', Option.bind_some]
            refine ⟨_, _, rfl, .inr ⟨rfl, hcalled,
              ⟨hlevel.pos, hlevel.samples, hlevel.graph, hlevel.graphSize,
              hlevel.deletedID⟩, fun hnone => ?_, fun m₀ hm₀ => ?_⟩⟩
            · cases hnone
            · obtain rfl := Option.some.inj hm₀
              exact ⟨m', rfl, hadded⟩
        · simp only [ne_eq, if_pos hfail]
          exact ⟨_, _, rfl, .inl ⟨by decide, fun hcalled => hnot hcalled.grows, hlevel, hsame⟩⟩
      · rw [if_pos hdim]
        exact ⟨_, index, rfl, .inl ⟨by decide, fun hcalled => hdim hcalled.dimension.2, h, rfl⟩⟩

/-- The batch is added as a whole exactly where the metadata has room for its entries, if the others
have. -/
theorem addIndex_allOrNothing_iff (mem : Memory) (fill : T) (p_data : Option (Nat → T))
    (p_dimension : Nat)
    {p_metadataSet : MetadataSet} (h : index.Level R)
    (hmetas : ∀ m, index.m_pMetadata = some m → m.Shows metas ∧ metas.length = R)
    (hentries : p_metadataSet.Gives entries) :
    (∃ code index', index.addIndex mem fill p_data entries.length p_dimension (some p_metadataSet) =
        some (code, index') ∧ AllOrNothing index (metas ++ entries) code index') ↔
      (p_data ≠ none → p_dimension ≠ 0 → p_dimension = index.m_pSamples.mycols →
        index.Grows mem entries.length →
        ∀ m, index.m_pMetadata = some m → ∀ n, m.room = some n → entries.length ≤ n) := by
  obtain ⟨code, index', hrun, hcase⟩ := h.addIndex mem fill p_data p_dimension
    (fun m hm => (hmetas m hm).1) hentries
  have hiff : (∃ code index', index.addIndex mem fill p_data entries.length p_dimension
    (some p_metadataSet) =
      some (code, index') ∧ AllOrNothing index (metas ++ entries) code index') ↔
      AllOrNothing index (metas ++ entries) code index' := by
    constructor
    · rintro ⟨code₀, index₀, hrun₀, hall⟩
      obtain ⟨rfl, rfl⟩ := Prod.mk.inj (Option.some.inj (hrun.symm.trans hrun₀))
      exact hall
    · exact fun hall => ⟨code, index', hrun, hall⟩
  rw [hiff]
  rcases hcase with ⟨hfail, hnot, hlevel, hsame⟩ | ⟨rfl, hcalled, hlevel, hnone, hsome⟩
  · refine iff_of_true ⟨fun _ => h.counts_eq hlevel hsame, fun hsuccess => absurd hsuccess hfail⟩ ?_
    intro hdata hzero hdim hgrows m _ n _
    have hempty : entries.length = 0 := by
      by_contra hne
      exact hnot ⟨hdata, hne, ⟨hzero, hdim⟩, hgrows⟩
    exact hempty.trans_le (Nat.zero_le n)
  · constructor
    · intro hall _ _ _ _ m hm
      obtain ⟨m', hm', hshows, -⟩ := hsome m hm
      refine taken_eq_iff.mp ?_
      have hcount := (hall.all rfl m' hm').1
      rw [hshows.count, List.length_append, (hmetas m hm).2] at hcount
      exact Nat.add_left_cancel (hcount.trans hlevel.samples.count)
    · refine fun hroom => ⟨fun hne => absurd rfl hne, fun _ m₀ hm₀ => ?_⟩
      cases hmeta : index.m_pMetadata with
      | none =>
        rw [hnone hmeta] at hm₀
        cases hm₀
      | some m =>
        obtain ⟨m', hm', hshows, -⟩ := hsome m hmeta
        obtain rfl := Option.some.inj (hm'.symm.trans hm₀)
        have htaken : m.taken entries = entries :=
          taken_eq (hroom hcalled.data hcalled.dimension.1 hcalled.dimension.2
            hcalled.grows m hmeta)
        rw [htaken] at hshows
        refine ⟨?_, hshows.gives⟩
        rw [hshows.count, List.length_append, (hmetas m hmeta).2]
        exact hlevel.samples.count.symm

def plenty : Memory := ⟨fun _ => true, fun _ => true, fun _ => true, fun _ => 0, id⟩

def twoOffsets : Helper.LockFreeVector Nat := ⟨2, 2, 1, [fun i => i], 1⟩

def one (byte : UInt8) : MetadataSet := .mem ⟨twoOffsets, 1, [byte], []⟩

def built : Index Int where
  m_pSamples := .init (-1) 1 1 1 4 (some fun _ _ => 7) [] 0
  m_pGraph := ⟨.init (-1) 1 1 1 4 none [] 0, 1⟩
  m_deletedID := .init (-1) 1 1 1 4 none [] 0
  m_pMetadata := some (one 65)

theorem twoOffsets_shows : twoOffsets.Shows 2 [0, 1] :=
  ⟨rfl, rfl, le_rfl, by decide, show ∀ i, i < 2 → Blocks.get? 1 [fun i =>
    i] i = [0, 1][i]? by decide⟩

theorem one_shows (byte : UInt8) : (one byte).Shows [[byte]] := by
  refine ⟨[0, 1], 2, twoOffsets_shows, rfl, le_rfl, fun i hi => ?_, fun i hi _ => ?_, rfl⟩
  · obtain rfl := Nat.lt_one_iff.mp hi
    rfl
  · obtain rfl := Nat.lt_one_iff.mp hi
    exact ⟨[], [], rfl, rfl⟩

theorem built_level : built.Level 1 :=
  ⟨Nat.one_pos, ⟨rfl, Option.some_ne_none _, Nat.zero_le _, rfl⟩,
    ⟨rfl, Option.some_ne_none _, Nat.zero_le _, rfl⟩, rfl,
      ⟨rfl, Option.some_ne_none _, Nat.zero_le _, rfl⟩⟩

theorem addIndex_allOrNothing_iff_built :
    (∃ code index', built.addIndex plenty (-1) (some fun _ => 8) [[66]].length 1 (some (one 66)) =
        some (code, index') ∧ AllOrNothing built ([[65]] ++ [[66]]) code index') ↔
      ((some fun _ => 8 : Option (Nat → Int)) ≠ none → 1 ≠ 0 → 1 = built.m_pSamples.mycols →
        built.Grows plenty [[66]].length →
        ∀ m, built.m_pMetadata = some m → ∀ n, m.room = some n → [[66]].length ≤ n) :=
  addIndex_allOrNothing_iff plenty (-1) (some fun _ => 8) 1 built_level
    (fun _ hm => Option.some.inj hm ▸ ⟨one_shows 65, rfl⟩) (one_shows 66).gives

theorem addIndex_not_allOrNothing :
    ¬ ∃ code index', built.addIndex plenty (-1) (some fun _ => 8) 1 1 (some (one 66)) =
      some (code, index') ∧
      AllOrNothing built [[65], [66]] code index' := by
  rintro ⟨code, index', h, hall⟩
  cases h
  exact absurd (hall.all rfl _ rfl).1 (by decide)

structure Call (T : Type) where
  mem : Memory
  p_data : Option (Nat → T)
  p_dimension : Nat
  p_metadataSet : MetadataSet
  entries : List (List UInt8)

def addAll (fill : T) : List (Call T) → Index T → Option (List ErrorCode × Index T)
  | [], index => some ([], index)
  | c :: calls, index => do
    let (code, index) ←
      index.addIndex c.mem fill c.p_data c.entries.length c.p_dimension (some c.p_metadataSet)
    let (codes, index) ← addAll fill calls index
    return (code :: codes, index)

def added : List (Call T) → List ErrorCode → List (List UInt8)
  | [], _ => []
  | _ :: _, [] => []
  | c :: calls, code :: codes =>
    if code = .success then c.entries ++ added calls codes else added calls codes

/-- Whichever of the calls fail, every sample has its entry while there is room for the entries of
all. -/
theorem addAll_gives (fill : T) {calls : List (Call T)} {m : MetadataSet} (h : index.Level R)
    (hmeta : index.m_pMetadata = some m) (hshows : m.Shows metas) (hlength : metas.length = R)
    (hgives : ∀ c ∈ calls, c.p_metadataSet.Gives c.entries)
    (hroom : ∀ n, m.room = some n → (calls.map fun c => c.entries.length).sum ≤ n) :
    ∃ codes index' m', index.addAll fill calls = some (codes, index') ∧ codes.length =
      calls.length ∧
      index'.Level (metas ++ added calls codes).length ∧ index'.m_pMetadata = some m' ∧
      m'.Gives (metas ++ added calls codes) := by
  induction calls generalizing index R m metas with
  | nil =>
    refine ⟨[], index, m, rfl, rfl, ?_, hmeta, ?_⟩
    · rw [added, List.append_nil, hlength]
      exact h
    · rw [added, List.append_nil]
      exact hshows.gives
  | cons c calls ih =>
    have hshows' : ∀ m₀, index.m_pMetadata = some m₀ → m₀.Shows metas := by
      intro m₀ hm₀
      obtain rfl := Option.some.inj (hmeta.symm.trans hm₀)
      exact hshows
    have hcalls : ∀ c ∈ calls, c.p_metadataSet.Gives c.entries := fun c hc =>
      hgives c (List.mem_cons_of_mem _ hc)
    simp only [List.map_cons, List.sum_cons] at hroom
    obtain ⟨code, index₁, hrun, hcase⟩ := h.addIndex c.mem fill c.p_data c.p_dimension hshows'
      (hgives c List.mem_cons_self)
    rcases hcase with ⟨hfail, -, hlevel, hsame⟩ | ⟨rfl, -, hlevel, -, hsome⟩
    · obtain ⟨codes, index', m', hrest, hcodes, hlevel', hmeta', hgives'⟩ := ih hlevel
        (hsame.trans hmeta) hshows hlength hcalls fun n hn =>
        (Nat.le_add_left _ _).trans (hroom n hn)
      refine ⟨code :: codes, index', m', ?_, congrArg (· + 1) hcodes, ?_, hmeta', ?_⟩
      · simp only [addAll, hrun, hrest, Option.bind_eq_bind, Option.bind_some]
        rfl
      · rwa [added, if_neg hfail]
      · rwa [added, if_neg hfail]
    · obtain ⟨m₁, hm₁, hshows₁, hroom₁⟩ := hsome m hmeta
      have htaken : m.taken c.entries = c.entries :=
        taken_eq fun n hn => (Nat.le_add_right _ _).trans (hroom n hn)
      rw [htaken] at hshows₁
      have hlength₁ : (metas ++ c.entries).length = R + c.entries.length := by
        rw [List.length_append, hlength]
      have hroom' : ∀ n, m₁.room = some n → (calls.map fun c => c.entries.length).sum ≤ n := by
        intro n hn
        rw [hroom₁] at hn
        obtain ⟨k, hk, rfl⟩ := Option.map_eq_some_iff.mp hn
        exact Nat.le_sub_of_add_le' (hroom k hk)
      obtain ⟨codes, index', m', hrest, hcodes, hlevel', hmeta', hgives'⟩ :=
        ih hlevel hm₁ hshows₁ hlength₁ hcalls hroom'
      refine ⟨.success :: codes, index', m', ?_, congrArg (· + 1) hcodes, ?_, hmeta', ?_⟩
      · simp only [addAll, hrun, hrest, Option.bind_eq_bind, Option.bind_some]
        rfl
      · rwa [added, if_pos rfl, ← List.append_assoc]
      · rwa [added, if_pos rfl, ← List.append_assoc]

/-- The index with its metadata in a file, and two calls of which the first asks for too much. -/
def filed : Index Int := { built with m_pMetadata := some (.file ⟨[0, 1], 1, [65], []⟩) }

def twoCalls : List (Call Int) :=
  [⟨⟨fun _ => false, fun _ => true, fun _ => true, fun _ => 0, id⟩, some fun _ =>
    8, 1, one 66, [[66]]⟩,
    ⟨plenty, some fun _ => 9, 1, one 67, [[67]]⟩]

theorem addAll_gives_filed : ∃ codes index' m', filed.addAll (-1) twoCalls = some (codes, index') ∧
    codes.length = 2 ∧ index'.Level ([[65]] ++ added twoCalls codes).length ∧
      index'.m_pMetadata = some m' ∧
      m'.Gives ([[65]] ++ added twoCalls codes) := by
  have hshows : (MetadataSet.file ⟨[0, 1], 1, [65], []⟩).Shows [[65]] := by
    refine ⟨rfl, le_rfl, fun i hi => ?_, fun i hi _ => ?_, rfl⟩
    · obtain rfl := Nat.lt_one_iff.mp hi
      rfl
    · obtain rfl := Nat.lt_one_iff.mp hi
      exact ⟨[], [], rfl, rfl⟩
  have hlevel : filed.Level 1 :=
    ⟨Nat.one_pos, built_level.samples, built_level.graph, rfl, built_level.deletedID⟩
  refine addAll_gives (-1) hlevel rfl hshows rfl (fun c hc => ?_) fun n hn => ?_
  · rcases List.mem_pair.mp hc with rfl | rfl
    · exact (one_shows 66).gives
    · exact (one_shows 67).gives
  · cases hn

end Index

end Sptag.BKT.AddIndex
