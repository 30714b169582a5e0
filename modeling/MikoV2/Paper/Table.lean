import MikoV2.Paper.Moves

/-!
# The writers' statements on `paper_positions`

* `insertPosition_fresh`, `insertPosition_reused` : an insert appends an `OPEN` row, or is ignored because a
  row has the id;
* `openRows_updatePosition` : an update takes its id out of the `OPEN` rows;
* `updatePosition_rows` : it changes exactly one row when the ids are distinct and one of them is open;
* `ids_insert`, `ids_update` : the ids stay distinct.
-/

namespace MikoV2.Paper
open PaperMath Store

variable {env : Env} {pos : PaperPosition} {trade : PaperTradeResult} {exitFee : ℚ} {now : ℤ} {db : Db}

/-- The ids of the table, in row order. -/
def ids (table : List PaperPositionRow) : List String := table.map PaperPositionRow.positionId

theorem mem_ids {table : List PaperPositionRow} {id : String} :
    id ∈ ids table ↔ ∃ r ∈ table, r.positionId = id := List.mem_map

@[simp] theorem openRow_toPosition : (openRow env pos now).toPosition = pos := rfl

@[simp] theorem openRow_positionId : (openRow env pos now).positionId = pos.positionId := rfl

@[simp] theorem openRow_isOpen : (openRow env pos now).isOpen = true := rfl

@[simp] theorem closeRow_isOpen {r : PaperPositionRow} : (closeRow trade exitFee now r).isOpen = false := rfl

theorem any_clash : db.positions.any (PaperPositionRow.clash (openRow env pos now)) = true ↔
    pos.positionId ∈ ids db.positions := by
  rw [List.any_eq_true, mem_ids]
  refine exists_congr fun r => and_congr_right fun _ => ?_
  rw [PaperPositionRow.clash_iff, openRow_positionId, eq_comm]

theorem insertPosition_fresh (h : pos.positionId ∉ ids db.positions) :
    insertPosition env pos now db = (1, { db with positions := db.positions ++ [openRow env pos now] }) := by
  unfold insertPosition
  rw [Sqlite.insertOrIgnore_of_fresh (Bool.eq_false_iff.mpr fun h' => h (any_clash.mp h'))]

theorem insertPosition_reused (h : pos.positionId ∈ ids db.positions) : insertPosition env pos now db = (0, db) := by
  unfold insertPosition
  rw [Sqlite.insertOrIgnore_of_clash (any_clash.mpr h)]

/-- Whatever the insert does, the rows that were there stay. -/
theorem insertPosition_cases (env : Env) (pos : PaperPosition) (now : ℤ) (db : Db) :
    (insertPosition env pos now db).2.positions = db.positions ∨
      (pos.positionId ∉ ids db.positions ∧
        (insertPosition env pos now db).2.positions = db.positions ++ [openRow env pos now]) := by
  by_cases h : pos.positionId ∈ ids db.positions
  · exact Or.inl (by rw [insertPosition_reused h])
  · exact Or.inr ⟨h, by rw [insertPosition_fresh h]⟩

theorem openRows_append (r : PaperPositionRow) (hr : r.isOpen = true) :
    openRows { db with positions := db.positions ++ [r] } = openRows db ++ [r] := by
  simp only [openRows, List.filter_append, List.filter_cons, hr, if_true, List.filter_nil]

theorem ids_insert (env : Env) (pos : PaperPosition) (now : ℤ) (h : (ids db.positions).Nodup) :
    (ids (insertPosition env pos now db).2.positions).Nodup := by
  rcases insertPosition_cases env pos now db with he | ⟨hfresh, he⟩
  · rw [he]; exact h
  · rw [he]
    simp only [ids, List.map_append, List.map_cons, List.map_nil, openRow_positionId]
    refine List.nodup_append.mpr ⟨h, by simp, fun a ha b hb hab => hfresh ?_⟩
    rw [List.mem_singleton] at hb
    rw [← hb, ← hab]
    exact ha

theorem openRows_updatePosition : openRows (updatePosition trade exitFee now db).2 =
    (openRows db).filter fun r => r.positionId ≠ trade.positionId := by
  simp only [openRows, updatePosition]
  rw [Sqlite.filter_update fun _ => closeRow_isOpen]
  refine List.filter_congr fun r hr => ?_
  have hopen := (List.mem_filter.mp hr).2
  simp [hopen]

theorem ids_update : ids (updatePosition trade exitFee now db).2.positions = ids db.positions :=
  Sqlite.map_update PaperPositionRow.positionId fun _ => rfl

theorem updatePosition_rows (exitFee : ℚ) (now : ℤ) (hids : (ids db.positions).Nodup)
    {r : PaperPositionRow} (hr : r ∈ openRows db) (hid : r.positionId = trade.positionId) : (updatePosition trade exitFee now db).1 = 1 := by
  obtain ⟨hmem, hopen⟩ := mem_openRows.mp hr
  simp only [updatePosition, Sqlite.update]
  have hle : db.positions.countP (fun r => decide (r.positionId = trade.positionId) && r.isOpen) ≤ 1 := by
    have hcount : (ids db.positions).count trade.positionId ≤ 1 := List.nodup_iff_count_le_one.mp hids _
    refine le_trans ?_ hcount
    rw [ids, List.count, List.countP_map]
    refine List.countP_mono_left fun x _ hx => ?_
    simp only [Bool.and_eq_true, decide_eq_true_eq] at hx
    simp [hx.1]
  have hpos : 0 < db.positions.countP (fun r => decide (r.positionId = trade.positionId) && r.isOpen) :=
    List.countP_pos_iff.mpr ⟨r, hmem, by simp [hid, hopen]⟩
  omega

theorem nodup_openRows (h : (ids db.positions).Nodup) : (ids (openRows db)).Nodup :=
  h.sublist (List.filter_sublist.map _)

end MikoV2.Paper
