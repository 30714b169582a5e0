import MikoV2.Backtest.Isolation
import MikoV2.Lib.Buckets
import MikoV2.Ohlcv.Runner
import MikoV2.Parity.Exit

/-!
# Replaying what was seen live

* `View`, `viewOf` : what the runner holds of a symbol; `View.deal`, `View.flush` : a trade of it, a flush;
* `viewOf_onTrade`, `viewOf_flushSnapshot` : the runner does that to the symbol, and nothing to the others;
* `candle`, `Tracks` : the fed candles are those of the closed buckets of the symbol's trades, the open bucket is the
  last one, and the table has a row for each of the closed and perhaps one for the open one;
* `Wired` : all consumers are fed the same, and the table is on disk;
* `replay_reproduces` : a replay yields what was seen live.
-/

namespace MikoV2.Ohlcv
open Backtest
open Backtest.MultiSymbolRunner (ohlcvs ohlcvs_symbolStream)
open Parity (sampleOf)
open Py (Dict PySet)
open Sqlite (Conn Faults insertOrReplace)
open Stream (Buckets Spec ofEvents)

variable {faults : Faults Call} {r : Runner} {s symbol : String} {b : Bucket} {t : Trade}

/-! ## One symbol -/

/-- What the runner holds of a symbol. -/
@[ext] structure View where
  accepted : List Trade := []
  late : List Trade := []
  fed : List OHLCVEvent := []
  active : Option Bucket := none
  rows : List OhlcvRow := []

def viewOf (s : String) (r : Runner) : View where
  accepted := r.accepted.filter fun t => t.symbol = s
  late := r.late.filter fun t => t.symbol = s
  fed := r.toDetector.filter fun ev => ev.symbol = s
  active := r.ohlcvBuffer.get? s
  rows := r.conn.view.ohlcv.filter fun row => row.symbol = s

namespace View

def store (s : String) (b : Bucket) (v : View) : View :=
  { v with rows := insertOrReplace ohlcvClash (b.row s) v.rows }

def fill (t : Trade) (b : Bucket) (v : View) : View := { v with active := some (b.add t) }

/-- A trade, accepted before. -/
def update (s : String) (t : Trade) (v : View) : View :=
  match v.active with
  | none => v.fill t (.new t.sec t.price)
  | some b =>
    if t.sec < b.sec then { v with late := v.late ++ [t] }
    else if b.sec ≠ t.sec then { v.store s b with fed := v.fed ++ [b.event s] }.fill t (.new t.sec t.price)
    else v.fill t b

def accept (t : Trade) (v : View) : View := { v with accepted := v.accepted ++ [t] }

def flush (s : String) (v : View) : View :=
  match v.active with
  | none => v
  | some b => v.store s b

end View

/-! ## The runner, symbol by symbol -/

section Steps
variable (hf : ∀ n c, faults n c = false)
include hf

theorem flushOhlcvSync_eq (symbol : String) (b : Bucket) (r : Runner) :
    flushOhlcvSync faults symbol b r =
      { r with
        conn := (r.conn.write faults .ohlcvInsert .ohlcvCommit fun db =>
          ((), { db with ohlcv := insertOrReplace ohlcvClash (b.row symbol) db.ohlcv })).2
        metrics.ohlcvFlushed := r.metrics.ohlcvFlushed + 1 } := by
  unfold flushOhlcvSync
  rw [Sqlite.write_of_no_faults hf]

theorem viewOf_flushOhlcvSync (s symbol : String) (b : Bucket) (r : Runner) :
    viewOf s (flushOhlcvSync faults symbol b r) =
      if symbol = s then (viewOf s r).store s b else viewOf s r := by
  have hclash : ∀ row : OhlcvRow, ohlcvClash (b.row symbol) row = true →
      decide (row.symbol = s) = decide ((b.row symbol).symbol = s) := by
    intro row h
    rw [ohlcvClash, decide_eq_true_eq] at h
    rw [h.1]
  have hrows : (insertOrReplace ohlcvClash (b.row symbol) r.conn.view.ohlcv).filter (fun row => row.symbol = s) = _ :=
    Sqlite.filter_insertOrReplace hclash
  rw [flushOhlcvSync_eq hf, Sqlite.write_of_no_faults hf]
  by_cases h : symbol = s
  · have hrow : decide ((b.row symbol).symbol = s) = true := decide_eq_true h
    rw [if_pos hrow] at hrows
    rw [if_pos h]
    subst h
    exact View.ext rfl rfl rfl rfl hrows
  · have hrow : ¬ decide ((b.row symbol).symbol = s) = true := fun hd => h (of_decide_eq_true hd)
    rw [if_neg hrow] at hrows
    rw [if_neg h]
    exact View.ext rfl rfl rfl rfl hrows

end Steps

theorem viewOf_onOhlcv1s (h : symbol ∈ r.initialised) (s : String) (b : Bucket) :
    viewOf s (onOhlcv1s symbol b r) =
      if symbol = s then { viewOf s r with fed := (viewOf s r).fed ++ [b.event s] } else viewOf s r := by
  unfold onOhlcv1s viewOf
  simp only [if_pos h, List.filter_append]
  have hsym : (b.event symbol).symbol = symbol := rfl
  by_cases hs : symbol = s
  · rw [if_pos hs, List.filter_singleton, hsym, decide_eq_true hs, cond_true, hs]
  · rw [if_neg hs, List.filter_singleton, hsym, decide_eq_false hs, cond_false, List.append_nil]

theorem viewOf_late (s : String) (t : Trade) (r : Runner) (metrics : Metrics) :
    viewOf s { r with metrics, late := r.late ++ [t] } =
      if t.symbol = s then { viewOf s r with late := (viewOf s r).late ++ [t] } else viewOf s r := by
  unfold viewOf
  by_cases hs : t.symbol = s
  · rw [if_pos hs, List.filter_append, List.filter_singleton, decide_eq_true hs, cond_true]
  · rw [if_neg hs, List.filter_append, List.filter_singleton, decide_eq_false hs, cond_false, List.append_nil]

theorem viewOf_accept (s : String) (t : Trade) (r : Runner) (metrics : Metrics) :
    viewOf s { r with metrics, accepted := r.accepted ++ [t] } =
      if t.symbol = s then (viewOf s r).accept t else viewOf s r := by
  unfold viewOf
  by_cases hs : t.symbol = s
  · rw [if_pos hs, List.filter_append, List.filter_singleton, decide_eq_true hs, cond_true]
    rfl
  · rw [if_neg hs, List.filter_append, List.filter_singleton, decide_eq_false hs, cond_false, List.append_nil]

theorem viewOf_fillBucket (s : String) (t : Trade) (b : Bucket) (r : Runner) :
    viewOf s (fillBucket t b r) = if t.symbol = s then (viewOf s r).fill t b else viewOf s r := by
  unfold fillBucket viewOf
  simp only [Dict.get?_set]
  by_cases hs : t.symbol = s
  · rw [if_pos hs, if_pos hs.symm]
    rfl
  · rw [if_neg hs, if_neg (Ne.symm hs)]

section Steps
variable (hf : ∀ n c, faults n c = false)
include hf

theorem flushOhlcvSync_initialised (hinit : t.symbol ∈ r.initialised) (b : Bucket) :
    t.symbol ∈ (flushOhlcvSync faults t.symbol b r).initialised := by
  rw [flushOhlcvSync_eq hf]
  exact hinit

/-- A trade, to the other symbols. -/
theorem viewOf_updateOhlcv_other (hinit : t.symbol ∈ r.initialised) (hs : t.symbol ≠ s) :
    viewOf s (updateOhlcv faults t r) = viewOf s r := by
  unfold updateOhlcv
  cases r.ohlcvBuffer.get? t.symbol with
  | none => rw [viewOf_fillBucket, if_neg hs]
  | some b =>
    dsimp only
    split
    · rw [viewOf_late, if_neg hs]
    · split
      · rw [viewOf_fillBucket, if_neg hs, viewOf_onOhlcv1s (flushOhlcvSync_initialised hf hinit b), if_neg hs,
          viewOf_flushOhlcvSync hf, if_neg hs]
      · rw [viewOf_fillBucket, if_neg hs]

/-- A trade, to its own symbol. -/
theorem viewOf_updateOhlcv_own (hinit : t.symbol ∈ r.initialised) :
    viewOf t.symbol (updateOhlcv faults t r) = (viewOf t.symbol r).update t.symbol t := by
  have hactive : (viewOf t.symbol r).active = r.ohlcvBuffer.get? t.symbol := rfl
  unfold updateOhlcv View.update
  rw [hactive]
  cases hget : r.ohlcvBuffer.get? t.symbol with
  | none => rw [viewOf_fillBucket, if_pos rfl]
  | some b =>
    dsimp only
    by_cases hlate : t.sec < b.sec
    · rw [if_pos hlate, if_pos hlate, viewOf_late, if_pos rfl]
      exact View.ext rfl rfl rfl hget rfl
    · rw [if_neg hlate, if_neg hlate]
      by_cases hsame : b.sec ≠ t.sec
      · rw [if_pos hsame, if_pos hsame, viewOf_fillBucket, if_pos rfl,
          viewOf_onOhlcv1s (flushOhlcvSync_initialised hf hinit b), if_pos rfl, viewOf_flushOhlcvSync hf, if_pos rfl]
        rfl
      · rw [if_neg hsame, if_neg hsame, viewOf_fillBucket, if_pos rfl]

theorem viewOf_updateOhlcv (hinit : t.symbol ∈ r.initialised) (s : String) :
    viewOf s (updateOhlcv faults t r) = if t.symbol = s then (viewOf s r).update s t else viewOf s r := by
  by_cases hs : t.symbol = s
  · subst hs
    rw [if_pos rfl]
    exact viewOf_updateOhlcv_own hf hinit
  · rw [if_neg hs]
    exact viewOf_updateOhlcv_other hf hinit hs

/-- **An element of a batch** is a trade of the symbol, or nothing to any symbol. -/
theorem viewOf_onTrade (hinit : symbol ∈ r.initialised) (cs : ℚ) (d : Deal) (s : String) :
    viewOf s (onTrade faults symbol cs r d) = viewOf s r ∨
      ∃ t, t.symbol = s ∧ viewOf s (onTrade faults symbol cs r d) = ((viewOf s r).accept t).update s t := by
  unfold onTrade
  split
  · rename_i price contracts side tsMs
    split
    · exact Or.inl rfl
    · dsimp only
      split
      · exact Or.inl rfl
      · rw [viewOf_updateOhlcv hf]
        · by_cases hs : symbol = s
          · refine Or.inr ⟨⟨symbol, price, contracts * cs * price, side, tsMs⟩, hs, ?_⟩
            rw [if_pos hs, viewOf_accept, if_pos hs]
          · rw [if_neg hs, viewOf_accept, if_neg hs]
            exact Or.inl rfl
        · exact hinit
  · exact Or.inl rfl

theorem viewOf_flushes (s : String) : ∀ (l : List (String × Bucket)) (r : Runner), (l.map Prod.fst).Nodup →
    viewOf s (l.foldl (fun r e => flushOhlcvSync faults e.1 e.2 r) r) =
      match (l.find? fun e => e.1 = s).map Prod.snd with
      | none => viewOf s r
      | some b => (viewOf s r).store s b := by
  intro l
  induction l with
  | nil => exact fun r _ => rfl
  | cons e l ih =>
    intro r hl
    rw [List.map_cons, List.nodup_cons] at hl
    rw [List.foldl_cons, ih _ hl.2, viewOf_flushOhlcvSync hf, List.find?_cons]
    by_cases hs : e.1 = s
    · have hnone : l.find? (fun e => e.1 = s) = none := by
        refine List.find?_eq_none.mpr fun e' he' h => hl.1 ?_
        rw [hs, ← of_decide_eq_true h]
        exact List.mem_map_of_mem he'
      rw [hnone, decide_eq_true hs, if_pos hs]
      rfl
    · rw [decide_eq_false hs, if_neg hs]

theorem insertSnapshots_ohlcv (snapshots : List DepthRow) : ∀ c : Conn EventDb,
    (snapshots.foldl (insertSnapshot faults) c).view.ohlcv = c.view.ohlcv := by
  induction snapshots with
  | nil => exact fun c => rfl
  | cons row rows ih =>
    intro c
    rw [List.foldl_cons, ih, insertSnapshot, Sqlite.write_of_no_faults hf]

/-- **A flush.** -/
theorem viewOf_flushSnapshot (snapshots : List DepthRow) (r : Runner) (s : String) :
    viewOf s (flushSnapshot faults snapshots r) = (viewOf s r).flush s := by
  have hconn : viewOf s { r with conn := snapshots.foldl (insertSnapshot faults) r.conn } = viewOf s r := by
    refine View.ext rfl rfl rfl rfl ?_
    show (snapshots.foldl (insertSnapshot faults) r.conn).view.ohlcv.filter _ = _
    rw [insertSnapshots_ohlcv hf]
    rfl
  unfold flushSnapshot
  rw [viewOf_flushes hf s _ _ r.ohlcvBuffer.nodup, hconn]
  rfl

end Steps

/-! ## The buckets of the trades -/

/-- The bucket of the trades of one second, in the order of arrival. -/
def candle : List Trade → Option Bucket
  | [] => none
  | t :: ts => some (ts.foldl (fun b t => b.add t) ((Bucket.new t.sec t.price).add t))

theorem candle_append {ts : List Trade} (h : candle ts = some b) (t : Trade) : candle (ts ++ [t]) = some (b.add t) := by
  cases ts with
  | nil => cases h
  | cons a as =>
    cases h
    show some ((as ++ [t]).foldl _ _) = _
    rw [List.foldl_append]
    rfl

/-- A bucket has the second of its trades and counts them. -/
theorem candle_spec (ts : List Trade) (h : candle ts = some b) : (∃ t ∈ ts, t.sec = b.sec) ∧ b.count = ts.length := by
  induction ts using List.reverseRecOn generalizing b with
  | nil => cases h
  | append_singleton ts t ih =>
    cases hts : candle ts with
    | none =>
      have hnil : ts = [] := by
        cases ts with
        | nil => rfl
        | cons a as => cases hts
      subst hnil
      cases h
      exact ⟨⟨t, List.mem_singleton_self t, rfl⟩, rfl⟩
    | some c =>
      rw [candle_append hts] at h
      cases h
      obtain ⟨⟨x, hx, hsec⟩, hcount⟩ := ih hts
      refine ⟨⟨x, List.mem_append_left _ hx, hsec⟩, ?_⟩
      show c.count + 1 = _
      rw [hcount, List.length_append, List.length_singleton]

/-- What a list of buckets is written as. -/
def written {α : Type} (f : Bucket → α) (gs : List (List Trade)) : List α := gs.filterMap fun g => (candle g).map f

theorem written_append {α : Type} (f : Bucket → α) (gs : List (List Trade)) (g : List Trade) :
    written f (gs ++ [g]) = written f gs ++ ((candle g).map f).toList := by
  unfold written
  rw [List.filterMap_append]
  cases hg : candle g with
  | none => rw [List.filterMap_cons_none (by rw [hg]; rfl)]; rfl
  | some b => rw [List.filterMap_cons_some (b := f b) (by rw [hg]; rfl)]; rfl

/-- The trades of the symbol are cut into the seconds `B`. The closed ones are fed and stored; the rows of the open one
are older states of it. -/
structure Tracks (s : String) (B : Buckets Trade) (v : View) : Prop where
  buckets : ofEvents Trade.sec v.accepted = B
  active : v.active = candle B.active
  fed : v.fed = written (Bucket.event s) B.closed
  rows : ∃ part, v.rows = written (Bucket.row s) B.closed ++ part ∧
    ∀ row ∈ part, row.symbol = s ∧ ∃ b ∈ v.active, row.sec = b.sec
  late : v.late.length + (B.closed.flatten.length + B.active.length) = v.accepted.length

theorem Tracks.empty (s : String) : Tracks s {} {} := ⟨rfl, rfl, rfl, ⟨[], rfl, by simp⟩, rfl⟩

section Tracks
variable {B : Buckets Trade} {v : View}

theorem Tracks.spec (h : Tracks s B v) : Spec Trade.sec v.accepted B := by
  rw [← h.buckets]
  exact Stream.spec_ofEvents Trade.sec v.accepted

/-- The open bucket is later than the closed ones. -/
theorem Tracks.closed_lt (h : Tracks s B v) (hb : v.active = some b) {g : List Trade} (hg : g ∈ B.closed) {c : Bucket}
    (hc : candle g = some c) : c.sec < b.sec := by
  obtain ⟨⟨x, hx, hxc⟩, -⟩ := candle_spec g hc
  obtain ⟨⟨a, ha, hab⟩, -⟩ := candle_spec B.active (h.active.symm.trans hb)
  have hlt : x.sec < a.sec := (List.pairwise_append.mp h.spec.sorted).2.2 g hg _ (List.mem_singleton_self _) x hx a ha
  omega

/-- Storing the open bucket replaces its older rows. -/
theorem Tracks.rows_store (h : Tracks s B v) (hb : v.active = some b) :
    (v.store s b).rows = written (Bucket.row s) B.closed ++ [b.row s] := by
  obtain ⟨part, hrows, hpart⟩ := h.rows
  have hkeep : (written (Bucket.row s) B.closed).filter (fun row => !ohlcvClash (b.row s) row) =
      written (Bucket.row s) B.closed := by
    refine List.filter_eq_self.mpr fun row hrow => ?_
    obtain ⟨g, hg, hrow⟩ := List.mem_filterMap.mp hrow
    obtain ⟨c, hc, hcrow⟩ := Option.map_eq_some_iff.mp hrow
    have hne : row.sec ≠ b.sec := by
      rw [← hcrow]
      exact (h.closed_lt hb hg hc).ne
    rw [ohlcvClash, Bool.not_eq_true', decide_eq_false_iff_not]
    exact fun hclash => hne hclash.2
  have hdrop : part.filter (fun row => !ohlcvClash (b.row s) row) = [] := by
    refine List.filter_eq_nil_iff.mpr fun row hrow => ?_
    obtain ⟨hsym, b', hb', hsec⟩ := hpart row hrow
    rw [hb, Option.mem_def, Option.some_inj] at hb'
    rw [ohlcvClash, decide_eq_true ⟨hsym, hb' ▸ hsec⟩]
    exact Bool.false_ne_true
  show insertOrReplace ohlcvClash (b.row s) v.rows = _
  unfold insertOrReplace
  rw [hrows, List.filter_append, hkeep, hdrop, List.append_nil]

theorem Tracks.flush (h : Tracks s B v) : Tracks s B (v.flush s) := by
  unfold View.flush
  cases hb : v.active with
  | none => exact h
  | some b =>
    refine ⟨h.buckets, h.active, h.fed, ⟨[b.row s], h.rows_store hb, fun row hrow => ?_⟩, h.late⟩
    rw [List.mem_singleton.mp hrow]
    exact ⟨rfl, b, hb, rfl⟩

/-- After a flush the table has the closed buckets and the open one. -/
theorem Tracks.rows_flush (h : Tracks s B v) : (v.flush s).rows = written (Bucket.row s) (B.closed ++ [B.active]) := by
  unfold View.flush
  cases hb : v.active with
  | none =>
    obtain ⟨part, hrows, hpart⟩ := h.rows
    have hnil : part = [] := by
      refine List.eq_nil_iff_forall_not_mem.mpr fun row hrow => ?_
      obtain ⟨-, b, hb', -⟩ := hpart row hrow
      rw [hb] at hb'
      cases hb'
    rw [hrows, hnil, written_append, ← h.active, hb]
    rfl
  | some b =>
    rw [written_append, ← h.active, hb]
    exact h.rows_store hb

/-- The candles seen live are those of all buckets. -/
theorem Tracks.seen (h : Tracks s B v) :
    v.fed ++ (v.active.map (Bucket.event s)).toList = written (Bucket.event s) (B.closed ++ [B.active]) := by
  rw [written_append, h.fed, h.active]

/-- One row a second, the seconds in order. -/
theorem Tracks.rows_sorted (h : Tracks s B v) :
    (written (Bucket.row s) (B.closed ++ [B.active])).Pairwise fun row row' => row.sec ≤ row'.sec := by
  unfold written
  rw [List.pairwise_filterMap]
  refine h.spec.sorted.imp fun {g g'} hlt row hrow row' hrow' => ?_
  obtain ⟨c, hc, rfl⟩ := Option.map_eq_some_iff.mp hrow
  obtain ⟨c', hc', rfl⟩ := Option.map_eq_some_iff.mp hrow'
  obtain ⟨⟨x, hx, hxc⟩, -⟩ := candle_spec g hc
  obtain ⟨⟨y, hy, hyc⟩, -⟩ := candle_spec g' hc'
  have hsec := hlt x hx y hy
  show c.sec ≤ c'.sec
  omega

/-- The rows count the trades on time. -/
theorem sum_written (s : String) (gs : List (List Trade)) :
    ((written (Bucket.row s) gs).map fun row => row.event.tradeCount).sum = gs.flatten.length := by
  induction gs with
  | nil => rfl
  | cons g gs ih =>
    unfold written at ih ⊢
    cases hg : candle g with
    | none =>
      have hnil : g = [] := by
        cases g with
        | nil => rfl
        | cons a as => cases hg
      rw [List.filterMap_cons_none (by rw [hg]; rfl), ih, hnil]
      rfl
    | some b =>
      rw [List.filterMap_cons_some (b := b.row s) (by rw [hg]; rfl), List.map_cons, List.sum_cons, ih, List.flatten_cons,
        List.length_append, ← (candle_spec g hg).2]
      rfl

theorem Tracks.feed (h : Tracks s B v) (t : Trade) :
    ofEvents Trade.sec (v.accepted ++ [t]) = Stream.feed Trade.sec B t := by
  rw [Stream.ofEvents_append, h.buckets]

/-- The first trade opens a bucket. -/
theorem Tracks.first (h : Tracks s B v) (hb : v.active = none) (t : Trade) :
    Tracks s ⟨B.closed, [t]⟩ ((v.accept t).fill t (.new t.sec t.price)) := by
  obtain ⟨part, hrows, hpart⟩ := h.rows
  have hnil : B.active = [] := by
    have hcandle := h.active.symm.trans hb
    cases hg : B.active with
    | nil => rfl
    | cons a as => rw [hg] at hcandle; cases hcandle
  have hfirst : Stream.feed Trade.sec B t = ⟨B.closed, [t]⟩ := by
    unfold Stream.feed
    rw [hnil]
  refine ⟨(h.feed t).trans hfirst, rfl, h.fed, ⟨part, hrows, fun row hrow => ?_⟩, ?_⟩
  · obtain ⟨-, b, hb', -⟩ := hpart row hrow
    rw [hb] at hb'
    cases hb'
  · have hlate := h.late
    rw [hnil, List.length_nil] at hlate
    show v.late.length + (B.closed.flatten.length + 1) = (v.accepted ++ [t]).length
    rw [List.length_append, List.length_singleton]
    omega

/-- The open bucket has trades, of its second. -/
theorem Tracks.exists_active (h : Tracks s B v) (hb : v.active = some b) :
    ∃ a as, B.active = a :: as ∧ a.sec = b.sec := by
  have hcandle : candle B.active = some b := h.active.symm.trans hb
  obtain ⟨⟨x, hx, hxb⟩, -⟩ := candle_spec _ hcandle
  obtain ⟨a, as, hg⟩ := List.exists_cons_of_ne_nil (List.ne_nil_of_mem hx)
  refine ⟨a, as, hg, ?_⟩
  rw [← hxb]
  exact h.spec.constant _ (List.mem_append_right _ (List.mem_singleton_self _)) a (hg ▸ List.mem_cons_self) x hx

/-- A late trade changes nothing but the count. -/
theorem Tracks.late_deal (h : Tracks s B v) (hb : v.active = some b) (hlt : t.sec < b.sec) :
    Tracks s B { v.accept t with late := v.late ++ [t] } := by
  obtain ⟨a, as, hg, hsec⟩ := h.exists_active hb
  refine ⟨(h.feed t).trans (Stream.feed_of_late hg (hsec ▸ hlt)), h.active, h.fed, h.rows, ?_⟩
  have hlate := h.late
  show (v.late ++ [t]).length + _ = (v.accepted ++ [t]).length
  rw [List.length_append, List.length_append, List.length_singleton]
  omega

/-- A later trade closes the bucket: it is stored and fed. -/
theorem Tracks.close (h : Tracks s B v) (hb : v.active = some b) (hlt : b.sec < t.sec) :
    Tracks s ⟨B.closed ++ [B.active], [t]⟩
      ({ (v.accept t).store s b with fed := v.fed ++ [b.event s] }.fill t (.new t.sec t.price)) := by
  obtain ⟨a, as, hg, hsec⟩ := h.exists_active hb
  have hcandle : candle B.active = some b := h.active.symm.trans hb
  refine ⟨(h.feed t).trans (Stream.feed_of_later hg (hsec ▸ hlt)), rfl, ?_, ⟨[], ?_, by simp⟩, ?_⟩
  · show v.fed ++ [b.event s] = _
    rw [written_append, hcandle, h.fed]
    rfl
  · rw [written_append, hcandle, List.append_nil]
    exact h.rows_store hb
  · have hlate := h.late
    show v.late.length + ((B.closed ++ [B.active]).flatten.length + 1) = (v.accepted ++ [t]).length
    rw [List.flatten_append, List.flatten_singleton, List.length_append, List.length_append, List.length_singleton]
    omega

/-- A trade of the same second joins the bucket. -/
theorem Tracks.join (h : Tracks s B v) (hb : v.active = some b) (heq : t.sec = b.sec) :
    Tracks s ⟨B.closed, B.active ++ [t]⟩ ((v.accept t).fill t b) := by
  obtain ⟨a, as, hg, hsec⟩ := h.exists_active hb
  obtain ⟨part, hrows, hpart⟩ := h.rows
  refine ⟨(h.feed t).trans (Stream.feed_of_same hg (heq.trans hsec.symm)), ?_, h.fed, ⟨part, hrows, fun row hrow => ?_⟩, ?_⟩
  · show some (b.add t) = candle (B.active ++ [t])
    rw [candle_append (h.active.symm.trans hb)]
  · obtain ⟨hsym, b', hb', hrowsec⟩ := hpart row hrow
    rw [hb, Option.mem_def, Option.some_inj] at hb'
    exact ⟨hsym, b.add t, rfl, hb' ▸ hrowsec⟩
  · have hlate := h.late
    show v.late.length + (B.closed.flatten.length + (B.active ++ [t]).length) = (v.accepted ++ [t]).length
    rw [List.length_append, List.length_append, List.length_singleton]
    omega

/-- **A trade.** -/
theorem Tracks.deal (h : Tracks s B v) (t : Trade) : ∃ B', Tracks s B' ((v.accept t).update s t) := by
  have hactive : (v.accept t).active = v.active := rfl
  unfold View.update
  rw [hactive]
  cases hb : v.active with
  | none => exact ⟨_, h.first hb t⟩
  | some b =>
    dsimp only
    by_cases hlt : t.sec < b.sec
    · rw [if_pos hlt]
      have hlate := h.late_deal hb hlt
      rw [← hb]
      exact ⟨B, hlate⟩
    · rw [if_neg hlt]
      by_cases hne : b.sec ≠ t.sec
      · rw [if_pos hne]
        exact ⟨_, h.close hb (lt_of_le_of_ne (not_lt.mp hlt) hne)⟩
      · rw [if_neg hne]
        exact ⟨_, h.join hb (not_not.mp hne).symm⟩

end Tracks

/-! ## The consumers and the disk -/

/-- All consumers are fed the same, the table is on disk, and the record is what the metrics count. -/
structure Wired (r : Runner) : Prop where
  disk : r.conn.disk = r.conn.view
  strategy : r.toStrategy = r.toDetector
  paper : r.toPaper = r.toDetector.map sampleOf
  sized : ∀ s cs, r.contractSize.get? s = some cs → s ∈ r.initialised
  tradesIn : r.metrics.tradesIn = r.accepted.length
  tradesLate : r.metrics.tradesLate = r.late.length

/-- What holds between the steps of a run. -/
structure Sound (r : Runner) : Prop where
  wired : Wired r
  tracks : ∀ s, ∃ B, Tracks s B (viewOf s r)

/-- A change that no symbol sees. -/
theorem Sound.of_view {r' : Runner} (h : Sound r) (hw : Wired r') (hv : ∀ s, viewOf s r' = viewOf s r) : Sound r' :=
  ⟨hw, fun s => by rw [hv s]; exact h.tracks s⟩

theorem Wired.fillBucket (h : Wired r) (t : Trade) (b : Bucket) : Wired (fillBucket t b r) :=
  ⟨h.disk, h.strategy, h.paper, h.sized, h.tradesIn, h.tradesLate⟩

theorem Wired.onOhlcv1s (h : Wired r) (hinit : symbol ∈ r.initialised) (b : Bucket) : Wired (onOhlcv1s symbol b r) := by
  unfold Ohlcv.onOhlcv1s
  dsimp only
  rw [if_pos hinit, if_pos hinit]
  refine ⟨h.disk, ?_, ?_, h.sized, h.tradesIn, h.tradesLate⟩
  · rw [h.strategy]
  · rw [h.paper, List.map_append]
    rfl

section Steps
variable (hf : ∀ n c, faults n c = false)
include hf

theorem Wired.flushOhlcvSync (h : Wired r) (symbol : String) (b : Bucket) : Wired (flushOhlcvSync faults symbol b r) := by
  rw [flushOhlcvSync_eq hf, Sqlite.write_of_no_faults hf]
  exact ⟨rfl, h.strategy, h.paper, h.sized, h.tradesIn, h.tradesLate⟩

theorem Wired.updateOhlcv (h : Wired r) (hinit : t.symbol ∈ r.initialised) : Wired (updateOhlcv faults t r) := by
  unfold Ohlcv.updateOhlcv
  cases r.ohlcvBuffer.get? t.symbol with
  | none => exact h.fillBucket t _
  | some b =>
    dsimp only
    split
    · refine ⟨h.disk, h.strategy, h.paper, h.sized, h.tradesIn, ?_⟩
      show r.metrics.tradesLate + 1 = (r.late ++ [t]).length
      rw [h.tradesLate, List.length_append, List.length_singleton]
    · split
      · have hflushed := h.flushOhlcvSync hf t.symbol b
        exact (hflushed.onOhlcv1s (flushOhlcvSync_initialised hf hinit b) b).fillBucket t _
      · exact h.fillBucket t b

theorem updateOhlcv_initialised (t : Trade) (r : Runner) : (updateOhlcv faults t r).initialised = r.initialised := by
  unfold updateOhlcv
  cases r.ohlcvBuffer.get? t.symbol with
  | none => rfl
  | some b =>
    dsimp only
    split
    · rfl
    · split
      · rw [flushOhlcvSync_eq hf]
        rfl
      · rfl

theorem Sound.onTrade (h : Sound r) (hinit : symbol ∈ r.initialised) (cs : ℚ) (d : Deal) :
    Sound (onTrade faults symbol cs r d) ∧ (onTrade faults symbol cs r d).initialised = r.initialised := by
  have htracks : ∀ s, ∃ B, Tracks s B (viewOf s (Ohlcv.onTrade faults symbol cs r d)) := by
    intro s
    obtain ⟨B, hB⟩ := h.tracks s
    rcases viewOf_onTrade hf hinit cs d s with heq | ⟨t, -, heq⟩
    · exact ⟨B, by rw [heq]; exact hB⟩
    · rw [heq]
      exact hB.deal t
  suffices hrest : Wired (Ohlcv.onTrade faults symbol cs r d) ∧
      (Ohlcv.onTrade faults symbol cs r d).initialised = r.initialised from ⟨⟨hrest.1, htracks⟩, hrest.2⟩
  have hw := h.wired
  have hskip : ∀ metrics, metrics.tradesIn = r.metrics.tradesIn → metrics.tradesLate = r.metrics.tradesLate →
      Wired { r with metrics } := fun metrics hin hlate =>
    ⟨hw.disk, hw.strategy, hw.paper, hw.sized, hin.trans hw.tradesIn, hlate.trans hw.tradesLate⟩
  unfold Ohlcv.onTrade
  split
  · split
    · exact ⟨hskip _ rfl rfl, rfl⟩
    · dsimp only
      split
      · exact ⟨hskip _ rfl rfl, rfl⟩
      · refine ⟨Wired.updateOhlcv hf ⟨hw.disk, hw.strategy, hw.paper, hw.sized, ?_, hw.tradesLate⟩ hinit,
          updateOhlcv_initialised hf _ _⟩
        show r.metrics.tradesIn + 1 = (r.accepted ++ [_]).length
        rw [hw.tradesIn, List.length_append, List.length_singleton]
  · exact ⟨hskip _ rfl rfl, rfl⟩

theorem Sound.onTrades (h : Sound r) (hinit : symbol ∈ r.initialised) (cs : ℚ) (trades : List Deal) :
    Sound (trades.foldl (Ohlcv.onTrade faults symbol cs) r) := by
  induction trades generalizing r with
  | nil => exact h
  | cons d trades ih =>
    obtain ⟨hsound, hinit'⟩ := h.onTrade hf hinit cs d
    exact ih hsound (hinit' ▸ hinit)

theorem Sound.onDeal (h : Sound r) (symbol : String) (trades : List Deal) : Sound (onDeal faults symbol trades r) := by
  unfold Ohlcv.onDeal
  split
  · exact h
  · dsimp only
    split
    · have hw := h.wired
      exact h.of_view ⟨hw.disk, hw.strategy, hw.paper, hw.sized, hw.tradesIn, hw.tradesLate⟩ fun s => rfl
    · rename_i hpos
      have hinit : symbol ∈ r.initialised := by
        cases hcs : r.contractSize.get? symbol with
        | none =>
          rw [hcs] at hpos
          exact absurd (le_refl 0) hpos
        | some cs => exact h.wired.sized symbol cs hcs
      exact h.onTrades hf hinit _ trades

theorem Sound.flushSnapshot (h : Sound r) (snapshots : List DepthRow) : Sound (flushSnapshot faults snapshots r) := by
  refine ⟨?_, fun s => ?_⟩
  · have hw := h.wired
    have hdisk : ∀ (rows : List DepthRow) (c : Conn EventDb), c.disk = c.view →
        (rows.foldl (insertSnapshot faults) c).disk = (rows.foldl (insertSnapshot faults) c).view := by
      intro rows
      induction rows with
      | nil => exact fun c hc => hc
      | cons row rows ih =>
        intro c hc
        apply ih
        rw [insertSnapshot, Sqlite.write_of_no_faults hf]
    have hflushes : ∀ (l : List (String × Bucket)) (r : Runner), Wired r →
        Wired (l.foldl (fun r e => Ohlcv.flushOhlcvSync faults e.1 e.2 r) r) := by
      intro l
      induction l with
      | nil => exact fun r hr => hr
      | cons e l ih => exact fun r hr => ih _ (hr.flushOhlcvSync hf e.1 e.2)
    unfold Ohlcv.flushSnapshot
    exact hflushes _ _ ⟨hdisk _ _ hw.disk, hw.strategy, hw.paper, hw.sized, hw.tradesIn, hw.tradesLate⟩
  · obtain ⟨B, hB⟩ := h.tracks s
    rw [viewOf_flushSnapshot hf]
    exact ⟨B, hB.flush⟩

omit hf in
/-- The symbol's state may come with new contract sizes, if its own is the only new one. -/
theorem Sound.initSymbolState (h : Sound r) {sizes : Dict String ℚ}
    (hsizes : ∀ s cs, sizes.get? s = some cs → s = symbol ∨ s ∈ r.initialised) :
    Sound (initSymbolState symbol { r with contractSize := sizes }) := by
  have hw := h.wired
  unfold Ohlcv.initSymbolState
  split
  · rename_i hmem
    refine h.of_view ⟨hw.disk, hw.strategy, hw.paper, fun s cs hs => ?_, hw.tradesIn, hw.tradesLate⟩ fun s => rfl
    rcases hsizes s cs hs with hs | hs
    · rw [hs]
      exact hmem
    · exact hs
  · refine h.of_view ⟨hw.disk, hw.strategy, hw.paper, fun s cs hs => ?_, hw.tradesIn, hw.tradesLate⟩ fun s => rfl
    exact PySet.mem_add.mpr (hsizes s cs hs).symm

omit hf in
theorem Sound.finishSubscribe (h : Sound r) (symbol : String) (fetched : Option ℚ) :
    Sound (finishSubscribe symbol fetched r) := by
  have hsame : Sound (Ohlcv.initSymbolState symbol { r with contractSize := r.contractSize }) :=
    h.initSymbolState fun s cs hs => Or.inr (h.wired.sized s cs hs)
  unfold Ohlcv.finishSubscribe
  split
  · rename_i cs hget
    refine h.initSymbolState fun s cs' hs => ?_
    rw [Dict.get?_set] at hs
    split at hs
    · exact Or.inl (by assumption)
    · exact Or.inr (h.wired.sized s cs' hs)
  · exact hsame

theorem Sound.step (h : Sound r) (ev : Event) : Sound (step faults r ev) := by
  have hw := h.wired
  cases ev with
  | deal symbol trades => exact h.onDeal hf symbol trades
  | flush snapshots => exact h.flushSnapshot hf snapshots
  | subscribe symbol =>
    exact h.of_view ⟨hw.disk, hw.strategy, hw.paper, hw.sized, hw.tradesIn, hw.tradesLate⟩ fun s => rfl
  | finishSubscribe symbol fetched => exact h.finishSubscribe symbol fetched
  | unsubscribe symbol =>
    exact h.of_view ⟨hw.disk, hw.strategy, hw.paper, hw.sized, hw.tradesIn, hw.tradesLate⟩ fun s => rfl

omit hf in
theorem sound_started (symbols : List String) (fetched : String → Option ℚ) : Sound (started symbols fetched) := by
  refine ⟨⟨rfl, rfl, rfl, fun s cs hs => ?_, rfl, rfl⟩, fun s => ⟨{}, .empty s⟩⟩
  refine PySet.mem_ofList.mpr ?_
  have hkeys : ∀ (l : List String) (d : Dict String ℚ) (s : String),
      s ∈ (l.foldl (fun d s => d.set s ((fetched s).getD (1 / 10000))) d).keys → s ∈ d.keys ∨ s ∈ l := by
    intro l
    induction l with
    | nil => exact fun d s hs => Or.inl hs
    | cons x l ih =>
      intro d s hs
      rcases ih _ s hs with hd | hl
      · rcases Dict.mem_keys_set.mp hd with hd | hx
        · exact Or.inl hd
        · exact Or.inr (hx ▸ List.mem_cons_self)
      · exact Or.inr (List.mem_cons_of_mem x hl)
  exact (hkeys symbols .empty s (Dict.mem_keys.mpr ⟨cs, hs⟩)).resolve_left List.not_mem_nil

/-- **Runs.** -/
theorem sound_run (symbols : List String) (fetched : String → Option ℚ) (events : List Event) :
    Sound (Runs.run (step faults) (started symbols fetched) events) :=
  Runs.invariant (sound_started symbols fetched) (fun _ ev h => h.step hf ev) events

end Steps

/-! ## The replay -/

/-- The replay of a symbol over all its candles is what its consumers were fed, and the candle still active; the rows
count its accepted trades that were not late. -/
structure Reproduced (s : String) (r : Runner) : Prop where
  replay : ∀ symbols, s ∈ symbols → ∀ tsFrom tsTo, (∀ ev ∈ seen s r, tsFrom ≤ ev.tsMs ∧ ev.tsMs ≤ tsTo) →
    ohlcvs ((streamMulti r.conn.disk symbols tsFrom tsTo).filter fun ev => ev.symbol = s) = seen s r
  strategy : r.toStrategy.filter (fun ev => ev.symbol = s) = r.toDetector.filter fun ev => ev.symbol = s
  paper : r.toPaper.filter (fun x => x.symbol = s) = (r.toDetector.filter fun ev => ev.symbol = s).map sampleOf
  counts : ((r.conn.disk.ohlcv.filter fun row => row.symbol = s).map fun row => row.event.tradeCount).sum +
    (r.late.filter fun t => t.symbol = s).length = (r.accepted.filter fun t => t.symbol = s).length
  tradesIn : r.metrics.tradesIn = r.accepted.length
  tradesLate : r.metrics.tradesLate = r.late.length

theorem ohlcvs_map_event (rows : List OhlcvRow) :
    ohlcvs (rows.map fun row => .ohlcv row.event) = rows.map OhlcvRow.event := by
  induction rows with
  | nil => rfl
  | cons row rows ih => exact congrArg (row.event :: ·) ih

/-- A table whose rows of the symbol are written from its buckets reads as their events. -/
theorem ohlcvs_streamMulti {db : EventDb} {B : Buckets Trade} {v : View} (h : Tracks s B v)
    (hrows : db.ohlcv.filter (fun row => row.symbol = s) = written (Bucket.row s) (B.closed ++ [B.active]))
    {symbols : List String} (hs : s ∈ symbols) {tsFrom tsTo : ℤ}
    (hrange : ∀ ev ∈ written (Bucket.event s) (B.closed ++ [B.active]), tsFrom ≤ ev.tsMs ∧ ev.tsMs ≤ tsTo) :
    ohlcvs ((streamMulti db symbols tsFrom tsTo).filter fun ev => ev.symbol = s) =
      written (Bucket.event s) (B.closed ++ [B.active]) := by
  have hevents : (written (Bucket.row s) (B.closed ++ [B.active])).map OhlcvRow.event =
      written (Bucket.event s) (B.closed ++ [B.active]) := by
    unfold written
    rw [List.map_filterMap]
    refine List.filterMap_congr fun g _ => ?_
    rw [Option.map_map]
    rfl
  have hall : db.ohlcv.filter (fun row => row.symbol = s ∧ tsFrom ≤ row.sec * 1000 ∧ row.sec * 1000 ≤ tsTo) =
      written (Bucket.row s) (B.closed ++ [B.active]) := by
    have hkeep : (written (Bucket.row s) (B.closed ++ [B.active])).filter
        (fun row => tsFrom ≤ row.sec * 1000 ∧ row.sec * 1000 ≤ tsTo) = written (Bucket.row s) (B.closed ++ [B.active]) := by
      refine List.filter_eq_self.mpr fun row hrow => decide_eq_true ?_
      exact hrange row.event (hevents ▸ List.mem_map_of_mem hrow)
    rw [← hkeep, ← hrows, List.filter_filter]
    refine List.filter_congr fun row _ => ?_
    rw [Bool.decide_and, Bool.and_comm]
  have hsorted := h.rows_sorted
  rw [← hall] at hsorted
  rw [streamMulti_symbol _ _ _ hs, ohlcvs_symbolStream, ohlcvGen_of_sorted hsorted, ohlcvs_map_event, hall, hevents]

/-- **Replay.** When every statement succeeds, what is replayed after a final flush is what was seen live. -/
theorem replay_reproduces (hf : ∀ n c, faults n c = false) (symbols : List String) (fetched : String → Option ℚ)
    (events : List Event) (snapshots : List DepthRow) (s : String) :
    Reproduced s (Runs.run (step faults) (started symbols fetched) (events ++ [.flush snapshots])) := by
  have hbefore := sound_run hf symbols fetched events
  have hafter := sound_run hf symbols fetched (events ++ [.flush snapshots])
  have hrun : Runs.run (step faults) (started symbols fetched) (events ++ [.flush snapshots]) =
      flushSnapshot faults snapshots (Runs.run (step faults) (started symbols fetched) events) := Runs.run_append _ _
  rw [hrun] at hafter ⊢
  obtain ⟨B, hB⟩ := hbefore.tracks s
  have hview := viewOf_flushSnapshot hf snapshots (Runs.run (step faults) (started symbols fetched) events) s
  generalize flushSnapshot faults snapshots (Runs.run (step faults) (started symbols fetched) events) = r at *
  have hflush : Tracks s B (viewOf s r) := hview ▸ hB.flush
  have hw := hafter.wired
  have hrows : r.conn.disk.ohlcv.filter (fun row => row.symbol = s) = written (Bucket.row s) (B.closed ++ [B.active]) := by
    rw [hw.disk, ← hB.rows_flush, ← hview]
    rfl
  have hseen : seen s r = written (Bucket.event s) (B.closed ++ [B.active]) := hflush.seen
  refine ⟨fun symbols hs tsFrom tsTo hrange => ?_, ?_, ?_, ?_, hw.tradesIn, hw.tradesLate⟩
  · rw [hseen] at hrange ⊢
    exact ohlcvs_streamMulti hflush hrows hs hrange
  · rw [hw.strategy]
  · rw [hw.paper, List.filter_map]
    rfl
  · have hlate := hflush.late
    rw [hrows, sum_written, List.flatten_append, List.flatten_singleton, List.length_append]
    show _ + (viewOf s r).late.length = (viewOf s r).accepted.length
    omega

/-- Two trades of a second with a flush between them, a late one, and one of the next second. -/
def lateDeals : List Event :=
  let trade := fun (p v : ℚ) (T t : ℤ) => Deal.dict (some p) (some v) (some T) (some t)
  [.deal "BTC_USDT" [trade 100 2 1 5000, .other], .flush [],
    .deal "BTC_USDT" [trade 101 1 2 5900, trade 99 1 1 4999, trade 102 3 1 6100]]

theorem replay_reproduces_late :
    Reproduced "BTC_USDT" (Runs.run (step fun _ _ => false) (started ["BTC_USDT"] fun _ => some 1)
      (lateDeals ++ [.flush []])) ∧
      seen "BTC_USDT" (Runs.run (step fun _ _ => false) (started ["BTC_USDT"] fun _ => some 1) (lateDeals ++ [.flush []])) =
        [⟨5, 5000, 100, 101, 100, 101, 200, 101, 2, "BTC_USDT", 5⟩,
          ⟨6, 6000, 102, 102, 102, 102, 306, 0, 1, "BTC_USDT", 6⟩] :=
  ⟨replay_reproduces (fun _ _ => rfl) _ _ _ _ _, by decide +kernel⟩

end MikoV2.Ohlcv
