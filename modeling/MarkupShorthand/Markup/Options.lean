import MarkupShorthand.Slot

/-!
# Rendering options

What markup is written for (`RenderMode`), which number a placeholder gets (`Numbering`) and how a
level is indented.
-/

namespace MarkupShorthand

/-- Whether places to type at are marked. -/
inductive RenderMode where
  /-- Plain markup. -/
  | silent
  /-- Markup with a tab stop `$N` in every leaf and in every attribute without a value. -/
  | counting
deriving DecidableEq

/-- Which number stands for the `$` of a node. -/
inductive Numbering where
  /-- The node's position among its copies. -/
  | flat
  /-- The count goes on across the copies of the nodes above. -/
  | stacked
deriving DecidableEq

/-- The number of a node in a slot below a node with number `parentIndex`; top-level nodes count as
below number 1. -/
def Numbering.index : Numbering → Slot → Nat → Nat
  | flat, slot, _ => slot.position
  | stacked, slot, parentIndex => slot.count * (parentIndex - 1) + slot.position

/-- The word for a mode. -/
def RenderMode.name : RenderMode → String
  | silent => "silent"
  | counting => "counting"

/-- The word for a numbering. -/
def Numbering.name : Numbering → String
  | flat => "flat"
  | stacked => "stacked"

/-- The mode of a word. -/
def RenderMode.ofName? : String → Option RenderMode
  | "silent" => some silent
  | "counting" => some counting
  | _ => none

/-- The numbering of a word. -/
def Numbering.ofName? : String → Option Numbering
  | "flat" => some flat
  | "stacked" => some stacked
  | _ => none

/-- How a tree is written as markup. -/
structure RenderOptions where
  mode : RenderMode := .silent
  numbering : Numbering := .flat
  /-- One level of indentation. -/
  indent : String := "\t"
deriving DecidableEq

end MarkupShorthand
