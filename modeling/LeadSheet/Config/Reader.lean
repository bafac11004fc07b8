import LeadSheet.Settings
import LeadSheet.Text.Blank
import LeadSheet.Yaml.Document

/-!
# Settings from YAML

A document with one mapping for each part of the settings. What it leaves out has its default, what
it adds is passed over, and a value of the wrong kind or out of its type's range makes the document
unreadable. What is read is checked.
-/

namespace LeadSheet.Config
set_option autoImplicit false

open Yaml (Node field?)

def maxWord32 : Nat := 0xffffffff

def maxWord64 : Nat := 0xffffffffffffffff

def tieBreak? (s : Yaml.Scalar) : Option TieBreak := do
  let name ← s.choice?
  [TieBreak.laterFirst, TieBreak.earlierFirst].find? (·.name == name)

def midi? (n : Node) : Option (MidiSettings Float) := do
  let entries ← n.entries?
  let default : MidiSettings Float := .default
  let float := Node.as? Yaml.Scalar.float?
  let word32 := Node.as? (Yaml.Scalar.natUpTo? maxWord32)
  let word64 := Node.as? (Yaml.Scalar.natUpTo? maxWord64)
  let signed64 := Yaml.Scalar.intWithin? (-0x8000000000000000) 0x7fffffffffffffff
  let offset := Node.as? (Yaml.Scalar.optional? signed64)
  return {
    snapBeats := ← field? entries "snap_beats" default.snapBeats float
    pickupBeats := ← field? entries "pickup_beats" default.pickupBeats float
    barIndexOffset := ← field? entries "bar_index_offset" default.barIndexOffset offset
    prebars := ← field? entries "prebars" default.prebars word32
    chordGridDivision := ← field? entries "chord_grid_div" default.chordGridDivision word32
    minTextChords := ← field? entries "min_text_chords" default.minTextChords word64
    ignoreDrums :=
      ← field? entries "ignore_drums" default.ignoreDrums (Node.as? Yaml.Scalar.bool?) }

def sections? (n : Node) : Option SectionSettings := do
  let entries ← n.entries?
  let default : SectionSettings := .default
  let word64 := Node.as? (Yaml.Scalar.natUpTo? maxWord64)
  let cap := Node.as? (Yaml.Scalar.optional? (Yaml.Scalar.natUpTo? maxWord64))
  return {
    windowBars := ← field? entries "ngram_bars" default.windowBars word64
    chorusMinOccurs := ← field? entries "chorus_min_occurs" default.chorusMinOccurs word64
    introMaxBars := ← field? entries "intro_max_bars" default.introMaxBars cap
    tieBreak := ← field? entries "tie_break" default.tieBreak (Node.as? tieBreak?) }

def lyrics? (n : Node) : Option (LyricSettings Float) := do
  let entries ← n.entries?
  let default : LyricSettings Float := .default
  let float := Node.as? Yaml.Scalar.float?
  let word32 := Node.as? (Yaml.Scalar.natUpTo? maxWord32)
  let text := Node.as? fun s => some s.text
  return {
    snapDivision := ← field? entries "snap_div" default.snapDivision word32
    joiner := ← field? entries "joiner" default.joiner text
    melismaBeats := ← field? entries "melisma_threshold_beats" default.melismaBeats float
    maxOffset := ← field? entries "max_offset_s" default.maxOffset float
    defaultConfidence :=
      ← field? entries "default_confidence" default.defaultConfidence float }

def settings? (n : Node) : Option (Settings Float) := do
  let entries ← n.entries?
  return {
    midi := ← field? entries "midi" .default midi?
    sections := ← field? entries "sections" .default sections?
    lyrics := ← field? entries "lyrics" .default lyrics? }

def read (text : String) : Except (Error Float) (Settings Float) := do
  let node := if (Text.trim text.toList).isEmpty then some Node.missing
    else Yaml.read? text.toList
  match node.bind settings? with
  | none => throw .configParse
  | some settings =>
    settings.check
    return settings

end LeadSheet.Config
