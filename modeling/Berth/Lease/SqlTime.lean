/-
Berth.Lease.SqlTime — the timestamps of the SQL store
(`internal/lease/sqlstore/sqlstore.go`).

`Lease/SqlStore.lean` leaves `time.Format` and `time.Parse` open. Here they
are what they are for the layouts of `parseTimeString`. A row of SQLite has
its instants in the first of them; a driver that hands over text may use
any. The layouts are tried in order, and parsing does not mind how many
digits of a second a layout has, so several of them read the same texts.
-/
import Berth.Calendar.Text
import Berth.Lease.SqlStore

namespace Berth.Lease

open Berth.Calendar

/-- The layouts of the store. -/
def layoutTable : List (String × Layout) :=
  [ (rfc3339Nano, ⟨'T', 9, true⟩),
    ("2006-01-02 15:04:05.999999999Z07:00", ⟨' ', 9, true⟩),
    ("2006-01-02 15:04:05.999999Z07:00", ⟨' ', 6, true⟩),
    ("2006-01-02 15:04:05.999Z07:00", ⟨' ', 3, true⟩),
    ("2006-01-02 15:04:05.999999999", ⟨' ', 9, false⟩),
    ("2006-01-02 15:04:05.999999", ⟨' ', 6, false⟩),
    ("2006-01-02 15:04:05.999", ⟨' ', 3, false⟩),
    ("2006-01-02 15:04:05", ⟨' ', 0, false⟩)]

/-- `time.Format` of a UTC time and `time.Parse`, for these layouts. -/
def goTime : TimeText where
  format := fun layout t =>
    match layoutTable.lookup layout with
    | some l => String.ofList (Calendar.format l t)
    | none => layout
  parse := fun layout s => (layoutTable.lookup layout).bind fun l => Calendar.parse l s.toList

theorem layouts_eq : layouts = layoutTable.map Prod.fst := rfl

theorem lookup_layout {layout : String} {l : Layout} (h : (layout, l) ∈ layoutTable) :
    layoutTable.lookup layout = some l := by
  simp only [layoutTable, List.mem_cons, Prod.mk.injEq, List.not_mem_nil, or_false] at h
  rcases h with ⟨rfl, rfl⟩ | ⟨rfl, rfl⟩ | ⟨rfl, rfl⟩ | ⟨rfl, rfl⟩ | ⟨rfl, rfl⟩ | ⟨rfl, rfl⟩ |
    ⟨rfl, rfl⟩ | ⟨rfl, rfl⟩ <;> decide

/-- The first answer of a search is the only one there is. -/
theorem findSome?_unique {α β : Type} {xs : List α} {f : α → Option β} {b : β}
    (hall : ∀ x ∈ xs, f x = none ∨ f x = some b) (hex : ∃ x ∈ xs, f x = some b) :
    xs.findSome? f = some b := by
  induction xs with
  | nil => simp at hex
  | cons x xs ih =>
    rcases hall x List.mem_cons_self with hx | hx
    · have hex' : ∃ y ∈ xs, f y = some b := by simpa [hx] using hex
      rw [List.findSome?_cons, hx]
      exact ih (fun y hy => hall y (List.mem_cons_of_mem x hy)) hex'
    · rw [List.findSome?_cons, hx]

variable {t : Time}

/-- Whichever layout of its list a timestamp was written in, the store
reads back that instant, without the digits that the layout does not
have. No layout that comes earlier in the list takes the text for
something else. In the layout of SQLite there are none to lose. -/
theorem parseTimeString_format (h0 : 0 ≤ (date t).year) (h : (date t).year ≤ 9999) :
    parseTime goTime (sqliteTimeValue goTime t) = .ok t ∧
      ∀ layout l, (layout, l) ∈ layoutTable →
        parseTimeString goTime (goTime.format layout t) = .ok (t - dropped l t) := by
  have hall : ∀ layout l, (layout, l) ∈ layoutTable →
      parseTimeString goTime (goTime.format layout t) = .ok (t - dropped l t) := by
    intro layout l hl
    have hformat : goTime.format layout t = String.ofList (Calendar.format l t) := by
      simp only [goTime, lookup_layout hl]
    -- an entry reads the text as this instant or not at all
    have hparse : ∀ x ∈ layoutTable, goTime.parse x.1 (String.ofList (Calendar.format l t)) =
        if x.2.sep = l.sep ∧ x.2.zone = l.zone then some (t - dropped l t) else none := by
      intro x hx
      simp only [goTime, lookup_layout (l := x.2) hx, Option.bind_some, String.toList_ofList,
        parse_format h0 h]
    have hfind : layouts.findSome? (fun x => goTime.parse x (String.ofList (Calendar.format l t))) =
        some (t - dropped l t) := by
      rw [layouts_eq, List.findSome?_map]
      refine findSome?_unique (fun x hx => ?_) ⟨(layout, l), hl, ?_⟩
      · simp only [Function.comp_apply, hparse x hx]
        split
        · exact .inr rfl
        · exact .inl rfl
      · simp only [Function.comp_apply, hparse _ hl, and_self, if_true]
    rw [parseTimeString, hformat, hfind]
  refine ⟨?_, hall⟩
  have hfirst := hall rfc3339Nano ⟨'T', 9, true⟩ List.mem_cons_self
  have hzero : dropped ⟨'T', 9, true⟩ t = 0 := by simp [dropped, Nat.mod_one]
  rw [hzero] at hfirst
  simpa [parseTime, sqliteTimeValue] using hfirst

/-- A timestamp with milliseconds only loses what it does not have. -/
theorem parseTimeString_format_millis :
    parseTimeString goTime (goTime.format "2006-01-02 15:04:05.999" 1700000000123456789) =
      .ok 1700000000123000000 := by
  have h := (parseTimeString_format (t := 1700000000123456789) (by decide)
    (by decide)).2 "2006-01-02 15:04:05.999" ⟨' ', 3, false⟩ (by decide)
  rw [h]
  decide

end Berth.Lease
