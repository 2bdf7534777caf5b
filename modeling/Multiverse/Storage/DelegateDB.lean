import Multiverse.Walleve.Cache
import Multiverse.Storage.TimeSeries

/-! # The delegate database and its cache

`CDelegateDB` of `storage/delegatedb.cpp` keeps a `CDelegateContext` per block
in a key-value database, with a `CWalleveCache` of 64 of them in front.
`AddNew` writes the database, then the cache; `Remove` drops the cache entry,
then erases; `Retrieve` answers from the cache, or reads the database and
caches what it read; `Clear` empties both.

Whether the engine does a `Put`, `Remove`, `Get` or `RemoveAll` is not up to
the code: each call takes the engine's answer as an input, and a call that
fails leaves the engine as it was. Whatever the answers, every cached context
is the one the engine holds (`Coherent`), so a `Retrieve` that succeeds gives
the engine's context, and with an engine that answers, `Retrieve` and
`RetrieveEnrollTx` give what reading the engine alone gives
(`run_retrieve_eq_engine`).
-/

namespace Multiverse.Storage

open Walleve

/-- `storage::CDelegateContext`: the votes at a block, as the entries of its
map in key order, and the positions of the enrolment transactions it records
under each anchor. -/
structure CDelegateContext where
  mapVote : List (CDestination × Int)
  mapEnrollTx : Nat → Option (CDestination → Option CDiskPos)

/-- `MAX_CACHE_COUNT` of `CDelegateDB`. -/
def MAX_CACHE_COUNT : Nat := 64

/-- `CDelegateDB`: the contexts the engine holds, by block hash, and the cache. -/
structure CDelegateDB where
  dbEngine : Nat → Option CDelegateContext
  cacheDelegate : CWalleveCache Nat CDelegateContext

/-- `mapEnrollTxPos.insert(first, last)`: the positions of delegates not yet in the map. -/
def insertEnrollTxPos (mapEnrollTxPos mapNew : CDestination → Option CDiskPos) :
    CDestination → Option CDiskPos :=
  fun dest => (mapEnrollTxPos dest).or (mapNew dest)

namespace CDelegateDB

/-- `CDelegateDB()` and `Initialize`: the engine opened on what it holds, and an empty cache. -/
def init (dbEngine : Nat → Option CDelegateContext) : CDelegateDB :=
  ⟨dbEngine, CWalleveCache.new MAX_CACHE_COUNT⟩

variable (db : CDelegateDB)

/-- `AddNew(hashBlock, ctxtDelegate)`, the engine's `Put` succeeding when `fPut`. -/
def addNew (hashBlock : Nat) (ctxtDelegate : CDelegateContext) (fPut : Bool) : Bool × CDelegateDB :=
  if fPut then
    (true, ⟨Function.update db.dbEngine hashBlock (some ctxtDelegate), db.cacheDelegate.addNew hashBlock ctxtDelegate⟩)
  else (false, db)

/-- `Remove(hashBlock)`, the engine's `Remove` succeeding when `fErase`. -/
def remove (hashBlock : Nat) (fErase : Bool) : Bool × CDelegateDB :=
  let cacheDelegate := db.cacheDelegate.remove hashBlock
  (fErase, ⟨if fErase then Function.update db.dbEngine hashBlock none else db.dbEngine, cacheDelegate⟩)

/-- `Retrieve(hashBlock, ctxtDelegate)`, the engine's `Get` of a context it
holds succeeding when `fGet`. -/
def retrieve (hashBlock : Nat) (fGet : Bool) : Option CDelegateContext × CDelegateDB :=
  match db.cacheDelegate.retrieve hashBlock with
  | some ctxtDelegate => (some ctxtDelegate, db)
  | none =>
    match (if fGet then db.dbEngine hashBlock else none) with
    | some ctxtDelegate => (some ctxtDelegate, { db with cacheDelegate := db.cacheDelegate.addNew hashBlock ctxtDelegate })
    | none => (none, db)

/-- `RetrieveDelegatedVote(hashBlock, mapVote)`. -/
def retrieveDelegatedVote (hashBlock : Nat) (fGet : Bool) : Option (List (CDestination × Int)) × CDelegateDB :=
  let r := db.retrieve hashBlock fGet
  (r.1.map (·.mapVote), r.2)

/-- One block of the loop of `RetrieveEnrollTx`: its context read, and the
positions it records under `hashAnchor` added; the loop stops at a failed read. -/
def retrieveEnrollStep (hashAnchor : Nat) (fGet : Nat → Bool)
    (acc : Option (CDestination → Option CDiskPos) × CDelegateDB) (hash : Nat) :
    Option (CDestination → Option CDiskPos) × CDelegateDB :=
  match acc.1 with
  | none => acc
  | some mapEnrollTxPos =>
    let r := acc.2.retrieve hash (fGet hash)
    match r.1 with
    | none => (none, r.2)
    | some ctxtDelegate =>
      (some (((ctxtDelegate.mapEnrollTx hashAnchor).map (insertEnrollTxPos mapEnrollTxPos)).getD mapEnrollTxPos), r.2)

/-- `RetrieveEnrollTx(hashAnchor, vBlockRange, mapEnrollTxPos)` into an empty
map: the range walked oldest first, so a delegate keeps the position of its
first enrolment. -/
def retrieveEnrollTx (hashAnchor : Nat) (vBlockRange : List Nat) (fGet : Nat → Bool) :
    Option (CDestination → Option CDiskPos) × CDelegateDB :=
  vBlockRange.reverse.foldl (retrieveEnrollStep hashAnchor fGet) (some fun _ => none, db)

/-- `Clear()`, the engine's `RemoveAll` succeeding when `fRemoveAll`. -/
def clear (fRemoveAll : Bool) : CDelegateDB :=
  ⟨if fRemoveAll then fun _ => none else db.dbEngine, db.cacheDelegate.clear⟩

/-! ## Reading the engine alone -/

/-- What `RetrieveEnrollTx` reads without a cache, from the contexts `dbEngine` holds. -/
def enrollTxOf (dbEngine : Nat → Option CDelegateContext) (hashAnchor : Nat) (vBlockRange : List Nat) :
    Option (CDestination → Option CDiskPos) :=
  vBlockRange.reverse.foldlM
    (fun mapEnrollTxPos hash => (dbEngine hash).map fun ctxtDelegate =>
      ((ctxtDelegate.mapEnrollTx hashAnchor).map (insertEnrollTxPos mapEnrollTxPos)).getD mapEnrollTxPos)
    fun _ => none

/-! ## The cache holds what the engine holds -/

/-- Every context in the cache is the one the engine holds for its block. -/
def Coherent : Prop := db.cacheDelegate.Coherent db.dbEngine

variable {db}

theorem coherent_init (dbEngine : Nat → Option CDelegateContext) : (init dbEngine).Coherent :=
  CWalleveCache.coherent_new _ _

theorem Coherent.addNew (h : db.Coherent) (hashBlock : Nat) (ctxtDelegate : CDelegateContext) (fPut : Bool) :
    (db.addNew hashBlock ctxtDelegate fPut).2.Coherent := by
  unfold CDelegateDB.addNew
  split_ifs
  · exact CWalleveCache.Coherent.addNew h (Function.update_self _ _ _) fun k hk => Function.update_of_ne hk _ _
  · exact h

theorem Coherent.remove (h : db.Coherent) (hashBlock : Nat) (fErase : Bool) :
    (db.remove hashBlock fErase).2.Coherent := by
  refine CWalleveCache.Coherent.remove h fun k hk => ?_
  show (if fErase then Function.update db.dbEngine hashBlock none else db.dbEngine) k = db.dbEngine k
  split_ifs
  · exact Function.update_of_ne hk _ _
  · rfl

theorem Coherent.retrieve (h : db.Coherent) (hashBlock : Nat) (fGet : Bool) :
    (db.retrieve hashBlock fGet).2.Coherent ∧ (db.retrieve hashBlock fGet).2.dbEngine = db.dbEngine ∧
      (∀ c, (db.retrieve hashBlock fGet).1 = some c → db.dbEngine hashBlock = some c) ∧
      (fGet = true → (db.retrieve hashBlock fGet).1 = db.dbEngine hashBlock) := by
  unfold CDelegateDB.retrieve
  cases hc : db.cacheDelegate.retrieve hashBlock with
  | some c =>
    have hdb := h hashBlock c hc
    refine ⟨h, rfl, fun c' hc' => ?_, fun _ => hdb.symm⟩
    rw [hdb]
    exact hc'
  | none =>
    dsimp only
    cases fGet with
    | false => exact ⟨h, rfl, (fun c hc' => by cases hc'), (fun hf => by cases hf)⟩
    | true =>
      cases hdb : db.dbEngine hashBlock with
      | none => exact ⟨h, rfl, (fun c hc' => by cases hc'), fun _ => rfl⟩
      | some c =>
        refine ⟨CWalleveCache.Coherent.addNew h hdb fun _ _ => rfl, rfl, ?_, fun _ => rfl⟩
        rintro c' ⟨⟩
        rfl

theorem Coherent.retrieveEnrollTx (h : db.Coherent) (hashAnchor : Nat) (vBlockRange : List Nat) (fGet : Nat → Bool) :
    (db.retrieveEnrollTx hashAnchor vBlockRange fGet).2.Coherent ∧
      ((∀ hash, fGet hash = true) →
        (db.retrieveEnrollTx hashAnchor vBlockRange fGet).1 = enrollTxOf db.dbEngine hashAnchor vBlockRange) := by
  have hloop : ∀ (l : List Nat) (acc : Option (CDestination → Option CDiskPos) × CDelegateDB),
      acc.2.Coherent → acc.2.dbEngine = db.dbEngine →
      (l.foldl (retrieveEnrollStep hashAnchor fGet) acc).2.Coherent ∧
        (l.foldl (retrieveEnrollStep hashAnchor fGet) acc).2.dbEngine = db.dbEngine ∧
        ((∀ hash, fGet hash = true) → (l.foldl (retrieveEnrollStep hashAnchor fGet) acc).1 =
          acc.1.bind fun m => l.foldlM (fun mapEnrollTxPos hash => (db.dbEngine hash).map fun ctxtDelegate =>
            ((ctxtDelegate.mapEnrollTx hashAnchor).map (insertEnrollTxPos mapEnrollTxPos)).getD mapEnrollTxPos) m) := by
    intro l
    induction l with
    | nil =>
      rintro ⟨m?, d⟩ hc he
      exact ⟨hc, he, fun _ => by cases m? <;> rfl⟩
    | cons hash l ih =>
      rintro ⟨m?, d⟩ hc he
      cases m? with
      | none =>
        -- after a failed read the loop reads nothing more
        have hstep : retrieveEnrollStep hashAnchor fGet (none, d) hash = (none, d) := rfl
        obtain ⟨hc', he', hres⟩ := ih (none, d) hc he
        rw [List.foldl_cons, hstep]
        exact ⟨hc', he', fun hf => by rw [hres hf]; rfl⟩
      | some m =>
        obtain ⟨hcr, her, -, hread⟩ := Coherent.retrieve hc hash (fGet hash)
        cases hr : (d.retrieve hash (fGet hash)).1 with
        | none =>
          have hstep : retrieveEnrollStep hashAnchor fGet (some m, d) hash = (none, (d.retrieve hash (fGet hash)).2) := by
            simp only [retrieveEnrollStep, hr]
          obtain ⟨hc', he', hres⟩ := ih (none, (d.retrieve hash (fGet hash)).2) hcr (her.trans he)
          rw [List.foldl_cons, hstep]
          refine ⟨hc', he', fun hf => ?_⟩
          have hnone : db.dbEngine hash = none := by rw [← he, ← hread (hf hash), hr]
          rw [hres hf]
          simp [List.foldlM_cons, hnone]
        | some c =>
          have hstep : retrieveEnrollStep hashAnchor fGet (some m, d) hash =
              (some (((c.mapEnrollTx hashAnchor).map (insertEnrollTxPos m)).getD m), (d.retrieve hash (fGet hash)).2) := by
            simp only [retrieveEnrollStep, hr]
          obtain ⟨hc', he', hres⟩ :=
            ih (some (((c.mapEnrollTx hashAnchor).map (insertEnrollTxPos m)).getD m), (d.retrieve hash (fGet hash)).2)
              hcr (her.trans he)
          rw [List.foldl_cons, hstep]
          refine ⟨hc', he', fun hf => ?_⟩
          have hsome : db.dbEngine hash = some c := by rw [← he, ← hread (hf hash), hr]
          rw [hres hf]
          simp [List.foldlM_cons, hsome]
  obtain ⟨hc, -, hres⟩ := hloop vBlockRange.reverse (some fun _ => none, db) h rfl
  exact ⟨hc, fun hf => (hres hf).trans rfl⟩

theorem Coherent.clear (fRemoveAll : Bool) : (db.clear fRemoveAll).Coherent :=
  CWalleveCache.coherent_clear _

end CDelegateDB

/-! ## Runs -/

/-- The calls on the delegate database, with the engine's answers. -/
inductive DelegateDBOp
  | addNew (hashBlock : Nat) (ctxtDelegate : CDelegateContext) (fPut : Bool)
  | remove (hashBlock : Nat) (fErase : Bool)
  | retrieve (hashBlock : Nat) (fGet : Bool)
  | retrieveEnrollTx (hashAnchor : Nat) (vBlockRange : List Nat) (fGet : Nat → Bool)
  | clear (fRemoveAll : Bool)

namespace DelegateDBOp

/-- The database after one call. -/
def step : DelegateDBOp → CDelegateDB → CDelegateDB
  | .addNew hashBlock ctxtDelegate fPut, db => (db.addNew hashBlock ctxtDelegate fPut).2
  | .remove hashBlock fErase, db => (db.remove hashBlock fErase).2
  | .retrieve hashBlock fGet, db => (db.retrieve hashBlock fGet).2
  | .retrieveEnrollTx hashAnchor vBlockRange fGet, db => (db.retrieveEnrollTx hashAnchor vBlockRange fGet).2
  | .clear fRemoveAll, db => db.clear fRemoveAll

theorem coherent_step {db : CDelegateDB} (h : db.Coherent) : (o : DelegateDBOp) → (o.step db).Coherent
  | .addNew hashBlock ctxtDelegate fPut => h.addNew hashBlock ctxtDelegate fPut
  | .remove hashBlock fErase => h.remove hashBlock fErase
  | .retrieve hashBlock fGet => (h.retrieve hashBlock fGet).1
  | .retrieveEnrollTx hashAnchor vBlockRange fGet => (h.retrieveEnrollTx hashAnchor vBlockRange fGet).1
  | .clear fRemoveAll => CDelegateDB.Coherent.clear fRemoveAll

end DelegateDBOp

/-- After any run of calls on a newly opened delegate database, whatever the
engine answered along the way, the cache never serves a stale or removed
context: a `Retrieve` that succeeds gives the context the engine holds, and
with an engine that answers, `Retrieve` and `RetrieveEnrollTx` give what
reading the engine alone gives. -/
theorem run_retrieve_eq_engine (dbEngine : Nat → Option CDelegateContext) (ops : List DelegateDBOp) :
    let db : CDelegateDB := ops.foldl (fun db o => o.step db) (CDelegateDB.init dbEngine)
    (∀ hashBlock fGet c, (db.retrieve hashBlock fGet).1 = some c → db.dbEngine hashBlock = some c) ∧
      (∀ hashBlock, (db.retrieve hashBlock true).1 = db.dbEngine hashBlock) ∧
      ∀ hashAnchor vBlockRange,
        (db.retrieveEnrollTx hashAnchor vBlockRange fun _ => true).1 =
          CDelegateDB.enrollTxOf db.dbEngine hashAnchor vBlockRange := by
  intro db
  have hrun : ∀ (ops : List DelegateDBOp) (db : CDelegateDB), db.Coherent →
      (ops.foldl (fun db o => o.step db) db).Coherent := by
    intro ops
    induction ops with
    | nil => exact fun _ h => h
    | cons o ops ih => exact fun db h => ih _ (DelegateDBOp.coherent_step h o)
  have h : db.Coherent := hrun ops _ (CDelegateDB.coherent_init dbEngine)
  exact ⟨fun hashBlock fGet c => (h.retrieve hashBlock fGet).2.2.1 c,
    fun hashBlock => (h.retrieve hashBlock true).2.2.2 rfl,
    fun hashAnchor vBlockRange => (h.retrieveEnrollTx hashAnchor vBlockRange _).2 fun _ => rfl⟩

end Multiverse.Storage
