import Quadruple.Text.Numeral

/-!
Tab-separated cells laid out in columns. A column is aligned over each run of neighbouring lines
that have a cell in it; the text behind a line's last tab belongs to no column. A vertical tab
separates cells like a tab, and a form feed ends a line and every run with it.
-/

namespace Quadruple.Text

/-- The cells of one line; the last one stands behind the last tab. -/
abbrev Row := List String

def columnGap : Nat := 2

def Row.reaches (column : Nat) (row : Row) : Bool :=
  column + 1 < row.length

def columnWidths (column : Nat) (rows : List Row) : List Nat :=
  (rows.splitBy fun upper lower => upper.reaches column == lower.reaches column).flatMap fun run =>
    let width := run.foldl (fun widest row => max widest (row.getD column "").length) 0
    run.map fun row => if row.reaches column then width + columnGap else 0

/-- Writes a line: each aligned cell is padded to its column's width. -/
def Row.render : Row → List Nat → String
  | [], _ => ""
  | [last], _ => last
  | cell :: rest, [] => cell ++ Row.render rest []
  | cell :: rest, width :: widths => padRight ' ' width cell ++ Row.render rest widths

def layOut (rows : List Row) : List String :=
  let columns := rows.foldl (fun most row => max most row.length) 0
  let widths := (List.range columns).map fun column => columnWidths column rows
  rows.zipIdx.map fun (row, index) => row.render (widths.map fun column => column.getD index 0)

def rowsOf (text : String) : List (List Row) :=
  let cut := text.toList.foldr place [[[[]]]]
  cut.map fun group => group.map fun row => row.map String.ofList
where
  place (character : Char) : List (List (List (List Char))) → List (List (List (List Char)))
    | ((cell :: cells) :: rows) :: groups =>
      match character with
      | '\t' | '\x0b' => (([] :: cell :: cells) :: rows) :: groups
      | '\n' => ([[]] :: (cell :: cells) :: rows) :: groups
      | '\x0c' => [[[]]] :: ((cell :: cells) :: rows) :: groups
      | _ => (((character :: cell) :: cells) :: rows) :: groups
    | other => other

def aligned (text : String) : String :=
  "\n".intercalate ((rowsOf text).flatMap layOut)

end Quadruple.Text
