import RecordFilter.Column.Basic

namespace RecordFilter

/-! # Configurations -/

/-- The three lists of a configuration. When any column is dropped, none is kept: of the columns to keep only the names
count then, which are still checked and still open paths. -/
structure Config where
  /-- Columns to keep, in the order of the output. -/
  columns : List Column
  /-- Columns written after the others. -/
  addColumns : List Column
  dropColumns : List Column

end RecordFilter
