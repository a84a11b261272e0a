import PacketTrace.Proofs.Text.Lines
import PacketTrace.Proofs.Text.Numeral
import PacketTrace.Report.Text

/-!
# `Proofs.Report.Rendering` — how much of a report its text tells

The text of a report is a list of lines, and every line but one lies within one line of text: only the name of
the trace is free, and it may bring line feeds and whole sections of its own. Behind that name comes the line
with the date, and no later line looks like it; so the last such line of a text ends the name
(`append_cons_inj_of_last`). In the sections an empty line ends each list of counts, and in a line the first
colon ends what is counted (`append_cons_inj_of_not_mem`). Two reports with the same text therefore differ at most
in what the text leaves out, which is the first and the latest time, the number of checksums, and the digits
that are not written (`render_eq_render_iff`).

## Contents
- **Figures.** They hold no blank characters, and the digits of a number tell the number.
- **Lines.** `entryText` and `titleText`; `Report.linesFromStatistics` and so on, from a section to the end.
- **No line of a section gives a date.** `IsSectionLine`, section by section.
- **The text as lines.** `split_render`.
- **Section by section.** What two reports agree in if their lines from a section on are the same.
- **Reports.** `Report.SameText` and `render_eq_render_iff`.
-/

namespace PacketTrace

open Text Numeral

/-! ## Figures -/

theorem isWord_decimal (n : Nat) : IsWord (decimal n) :=
  fun c hc => isBlank_of_isDigit ((digits_decimal n).isDigit c hc)

theorem Fixed.isWord_layout (places n : Nat) : IsWord (Fixed.layout places n) := by
  have hzeros (count : Nat) : IsWord (List.replicate count '0') := by
    intro c hc
    rw [List.eq_of_mem_replicate hc]
    rfl
  unfold Fixed.layout
  apply isWord_append.mpr
  refine ⟨isWord_decimal _, List.forall_mem_cons.mpr ⟨rfl, ?_⟩⟩
  exact isWord_append.mpr ⟨hzeros _, isWord_decimal _⟩

theorem Fixed.isWord_render (places : Nat) (x : Float) : IsWord (Fixed.render places x) := by
  unfold Fixed.render
  split
  · decide
  · decide
  · decide
  · exact isWord_layout _ _
  · exact List.forall_mem_cons.mpr ⟨rfl, isWord_layout _ _⟩

/-- A word ends where the first space stands. -/
theorem word_append_inj {word word' rest rest' : Text} (h : IsWord word) (h' : IsWord word') :
    word ++ ' ' :: rest = word' ++ ' ' :: rest' ↔ word = word' ∧ rest = rest' := by
  apply append_cons_inj_of_not_mem
  · exact h.not_mem rfl
  · exact h'.not_mem rfl

/-! ## Lines -/

/-- The title of a section, as a line. -/
def titleText (title : String) : Text := "--- ".toList ++ title.toList ++ " ---".toList

/-- A line that names something and gives its value. -/
def entryText (name value : Text) : Text := name ++ ": ".toList ++ value

@[simp] theorem entryText_inj {name value value' : Text} :
    entryText name value = entryText name value' ↔ value = value' := by
  unfold entryText
  rw [List.append_cancel_left_eq]

/-- A name without a colon ends where the first colon stands. -/
theorem entryText_inj_of_not_mem {name name' value value' : Text} (h : ':' ∉ name) (h' : ':' ∉ name') :
    entryText name value = entryText name' value' ↔ name = name' ∧ value = value' := by
  have hcolon (w v : Text) : entryText w v = w ++ ':' :: ' ' :: v := by simp [entryText]
  rw [hcolon, hcolon, append_cons_inj_of_not_mem h h', List.cons_inj_right]

/-- A line with a count. -/
def countText (name : Text) (unit : String) (n : Nat) : Text := entryText name (decimal n ++ unit.toList)

theorem countText_inj {name name' : Text} {unit : String} {m n : Nat} (h : ':' ∉ name) (h' : ':' ∉ name') :
    countText name unit m = countText name' unit n ↔ name = name' ∧ m = n := by
  unfold countText
  rw [entryText_inj_of_not_mem h h', List.append_cancel_right_eq, decimal_inj]

theorem EventKind.name_inj {k k' : EventKind} (h : k.name = k'.name) : k = k' := by
  have hname := congrArg ofName? h
  simpa using hname

theorem Bucket.name_inj {b b' : Bucket} (h : b.name = b'.name) : b = b' := by
  have hname := congrArg ofName? h
  simpa using hname

theorem EventKind.not_mem_name (k : EventKind) : ':' ∉ k.name ∧ '\n' ∉ k.name := by
  cases k <;> decide

theorem Bucket.not_mem_name (b : Bucket) : ':' ∉ b.name ∧ '\n' ∉ b.name := by
  cases b with
  | packet kind => cases kind <;> decide
  | retransmissions => decide

namespace Report

def eventText (entry : EventKind × Nat) : Text := countText entry.1.name " events" entry.2

def packetText (entry : Bucket × Nat) : Text := countText entry.1.name " packets" entry.2

def quoteText (quote : ProblemLine) : Text :=
  entryText ("Line ".toList ++ decimal quote.lineNumber) (quote.text ++ "...".toList)

theorem eventText_inj {a b : EventKind × Nat} (h : eventText a = eventText b) : a = b := by
  obtain ⟨hname, hcount⟩ := (countText_inj a.1.not_mem_name.1 b.1.not_mem_name.1).mp h
  exact Prod.ext (EventKind.name_inj hname) hcount

theorem packetText_inj {a b : Bucket × Nat} (h : packetText a = packetText b) : a = b := by
  obtain ⟨hname, hcount⟩ := (countText_inj a.1.not_mem_name.1 b.1.not_mem_name.1).mp h
  exact Prod.ext (Bucket.name_inj hname) hcount

theorem quoteText_inj {a b : ProblemLine} (h : quoteText a = quoteText b) : a = b := by
  have hname (n : Nat) : ':' ∉ "Line ".toList ++ decimal n := by
    intro hmem
    rcases List.mem_append.mp hmem with hword | hdigit
    · exact absurd hword (by decide)
    · exact absurd ((digits_decimal n).isDigit ':' hdigit) (by decide)
  obtain ⟨hnumber, htext⟩ := (entryText_inj_of_not_mem (hname _) (hname _)).mp h
  rw [List.append_cancel_left_eq, decimal_inj] at hnumber
  rw [List.append_cancel_right_eq] at htext
  cases a
  cases b
  cases hnumber
  cases htext
  rfl

/-- The lines of the last section, which is left out if nothing is quoted. -/
def linesFromQuotes (r : Report) : List Text :=
  if r.problemLines.isEmpty then []
  else [] :: titleText "PROBLEM LINES" :: r.problemLines.map quoteText

/-- The lines from the section on flows to the end. -/
def linesFromFlows (r : Report) : List Text :=
  [] :: titleText "FLOW INFORMATION" ::
    entryText "Unique flows".toList (decimal r.uniqueFlows) ::
    entryText "Average packets per flow".toList (Fixed.render 1 r.avgPacketsPerFlow) ::
    r.linesFromQuotes

/-- The lines from the distribution of the packets to the end. -/
def linesFromPackets (r : Report) : List Text :=
  [] :: titleText "PACKET TYPE DISTRIBUTION" :: (r.packetTypes.map packetText ++ r.linesFromFlows)

/-- The size of the data in two units. -/
def sizeText (r : Report) : Text :=
  decimal r.totalBytes ++ " bytes (".toList ++ Fixed.render 2 r.totalKb ++ " KB)".toList

/-- The throughput in two units. -/
def rateText (r : Report) : Text :=
  Fixed.render 2 r.throughputBps ++ " bit/s (".toList ++ Fixed.render 2 r.throughputMbps ++ " Mbit/s)".toList

/-- The lines from the section on data and acknowledgement packets to the end. -/
def linesFromMetrics (r : Report) : List Text :=
  [] :: titleText "CORE METRICS" ::
    entryText "Total data packets".toList (decimal r.totalPackets) ::
    entryText "Retransmissions".toList (decimal r.retransmittedPackets) ::
    entryText "Retransmission rate".toList (Fixed.render 2 r.retransmissionRate ++ ['%']) ::
    entryText "Total data".toList r.sizeText ::
    entryText "Duration".toList (Fixed.render 3 r.duration ++ " s".toList) ::
    entryText "Average throughput".toList r.rateText ::
    r.linesFromPackets

/-- The lines from the distribution of the events to the end. -/
def linesFromEvents (r : Report) : List Text :=
  [] :: titleText "EVENT DISTRIBUTION" :: (r.eventTypes.map eventText ++ r.linesFromMetrics)

/-- The lines of all sections. -/
def linesFromStatistics (r : Report) : List Text :=
  [] :: titleText "PROCESSING STATISTICS" ::
    entryText "Parsed lines".toList (decimal r.parsedLines) ::
    entryText "Failed lines".toList (decimal r.failedLines) ::
    entryText "Success rate".toList (Fixed.render 1 r.successRate ++ ['%']) ::
    r.linesFromEvents

theorem sectionTitle_eq (title : String) : sectionTitle title = textLine [] ++ textLine (titleText title) :=
  rfl

theorem figureLine_eq (label : String) (figure : Text) :
    figureLine label figure = textLine (entryText label.toList figure) :=
  rfl

theorem eventLine_eq : eventLine = fun entry => textLine (eventText entry) := by
  funext entry
  simp only [eventLine, eventText, countText, entryText, List.append_assoc]

theorem packetLine_eq : packetLine = fun entry => textLine (packetText entry) := by
  funext entry
  simp only [packetLine, packetText, countText, entryText, List.append_assoc]

theorem problemLine_eq : problemLine = fun quote => textLine (quoteText quote) := by
  funext quote
  simp only [problemLine, quoteText, entryText, List.append_assoc]

theorem problemsText_eq (r : Report) : r.problemsText = r.linesFromQuotes.flatMap textLine := by
  unfold problemsText linesFromQuotes
  split
  · rfl
  · simp only [sectionTitle_eq, problemLine_eq, List.flatMap_cons, List.flatMap_map, List.append_assoc]

/-- **The text, line by line.** -/
theorem render_eq_lines (r : Report) (header : ReportHeader) :
    r.render header =
      textLine (entryText "Trace analysis".toList header.inputFile) ++
        (entryText "Analysis date".toList header.generatedAt :: r.linesFromStatistics).flatMap textLine := by
  simp only [render, headerText, processingText, eventsText, metricsText, packetsText, flowsText,
    problemsText_eq, linesFromStatistics, linesFromEvents, linesFromMetrics, linesFromPackets, linesFromFlows,
    sizeText, rateText, sectionTitle_eq, figureLine_eq, eventLine_eq, packetLine_eq, List.flatMap_cons,
    List.flatMap_append, List.flatMap_map, List.append_assoc]

/-! ## No line of a section gives a date -/

/-- Whether a line begins as the line with the date does. -/
def givesDate (line : Text) : Bool := "Analysis date: ".toList.isPrefixOf line

theorem givesDate_date (date : Text) : givesDate (entryText "Analysis date".toList date) = true := by
  rfl

/-- A line that stays one line and cannot be taken for the line with the date. -/
structure IsSectionLine (line : Text) : Prop where
  not_mem : '\n' ∉ line
  undated : givesDate line = false

theorem isSectionLine_nil : IsSectionLine [] := ⟨List.not_mem_nil, rfl⟩

theorem isSectionLine_titleText (title : String) (h : '\n' ∉ title.toList) :
    IsSectionLine (titleText title) := by
  refine ⟨?_, rfl⟩
  simp [titleText, h]

theorem isSectionLine_entryText {name value : Text} (hname : '\n' ∉ name) (hvalue : '\n' ∉ value)
    (hdate : givesDate (entryText name value) = false) : IsSectionLine (entryText name value) := by
  refine ⟨?_, hdate⟩
  simp [entryText, hname, hvalue]

@[simp] theorem lineFeed_not_mem_decimal (n : Nat) : '\n' ∉ decimal n :=
  (isWord_decimal n).not_mem rfl

@[simp] theorem lineFeed_not_mem_render (places : Nat) (x : Float) : '\n' ∉ Fixed.render places x :=
  (Fixed.isWord_render places x).not_mem rfl

theorem isSectionLine_eventText (entry : EventKind × Nat) : IsSectionLine (eventText entry) := by
  apply isSectionLine_entryText entry.1.not_mem_name.2
  · simp
  · cases entry.1 <;> rfl

theorem isSectionLine_packetText (entry : Bucket × Nat) : IsSectionLine (packetText entry) := by
  apply isSectionLine_entryText entry.1.not_mem_name.2
  · simp
  · cases entry.1 with
    | packet kind => cases kind <;> rfl
    | retransmissions => rfl

theorem isSectionLine_quoteText {quote : ProblemLine} (h : '\n' ∉ quote.text) :
    IsSectionLine (quoteText quote) := by
  apply isSectionLine_entryText
  · simp
  · simp [h]
  · rfl

section

-- a quoted line is the only text of a section that the trace brings
variable {r : Report} (hquotes : ∀ quote ∈ r.problemLines, '\n' ∉ quote.text)

include hquotes

theorem isSectionLine_quotes : ∀ line ∈ r.linesFromQuotes, IsSectionLine line := by
  unfold linesFromQuotes
  split
  · simp
  · rw [List.forall_mem_cons, List.forall_mem_cons, List.forall_mem_map]
    exact ⟨isSectionLine_nil, isSectionLine_titleText _ (by decide),
      fun quote hquote => isSectionLine_quoteText (hquotes quote hquote)⟩

theorem isSectionLine_flows : ∀ line ∈ r.linesFromFlows, IsSectionLine line := by
  unfold linesFromFlows
  simp only [List.forall_mem_cons]
  exact ⟨isSectionLine_nil, isSectionLine_titleText _ (by decide),
    isSectionLine_entryText (by decide) (by simp) rfl,
    isSectionLine_entryText (by decide) (by simp) rfl,
    isSectionLine_quotes hquotes⟩

theorem isSectionLine_packets : ∀ line ∈ r.linesFromPackets, IsSectionLine line := by
  unfold linesFromPackets
  simp only [List.forall_mem_cons, List.forall_mem_append, List.forall_mem_map]
  exact ⟨isSectionLine_nil, isSectionLine_titleText _ (by decide),
    fun entry _ => isSectionLine_packetText entry, isSectionLine_flows hquotes⟩

theorem isSectionLine_metrics : ∀ line ∈ r.linesFromMetrics, IsSectionLine line := by
  unfold linesFromMetrics
  simp only [List.forall_mem_cons]
  exact ⟨isSectionLine_nil, isSectionLine_titleText _ (by decide),
    isSectionLine_entryText (by decide) (by simp) rfl,
    isSectionLine_entryText (by decide) (by simp) rfl,
    isSectionLine_entryText (by decide) (by simp) rfl,
    isSectionLine_entryText (by decide) (by simp [sizeText]) rfl,
    isSectionLine_entryText (by decide) (by simp) rfl,
    isSectionLine_entryText (by decide) (by simp [rateText]) rfl,
    isSectionLine_packets hquotes⟩

theorem isSectionLine_events : ∀ line ∈ r.linesFromEvents, IsSectionLine line := by
  unfold linesFromEvents
  simp only [List.forall_mem_cons, List.forall_mem_append, List.forall_mem_map]
  exact ⟨isSectionLine_nil, isSectionLine_titleText _ (by decide),
    fun entry _ => isSectionLine_eventText entry, isSectionLine_metrics hquotes⟩

theorem isSectionLine_statistics : ∀ line ∈ r.linesFromStatistics, IsSectionLine line := by
  unfold linesFromStatistics
  simp only [List.forall_mem_cons]
  exact ⟨isSectionLine_nil, isSectionLine_titleText _ (by decide),
    isSectionLine_entryText (by decide) (by simp) rfl,
    isSectionLine_entryText (by decide) (by simp) rfl,
    isSectionLine_entryText (by decide) (by simp) rfl,
    isSectionLine_events hquotes⟩

/-- Behind the date no line gives a date, so the last such line of a text is that of its header. -/
theorem not_givesDate_statistics : ∀ line ∈ r.linesFromStatistics ++ [[]], ¬ givesDate line = true := by
  rw [List.forall_mem_append, List.forall_mem_singleton]
  constructor
  · intro line hline
    rw [(isSectionLine_statistics hquotes line hline).undated]
    exact Bool.false_ne_true
  · exact Bool.false_ne_true

end

/-! ## The text as lines -/

theorem split_flatMap_textLine {texts : List Text} (h : ∀ line ∈ texts, '\n' ∉ line) :
    split '\n' (texts.flatMap textLine) = texts ++ [[]] := by
  induction texts with
  | nil => rfl
  | cons line texts ih =>
    rw [List.forall_mem_cons] at h
    rw [List.flatMap_cons, textLine, List.append_assoc, List.singleton_append, split_append h.1, ih h.2]
    rfl

/-- The lines of a text: those of the name of the trace, the date, and the sections. -/
theorem split_render {r : Report} {header : ReportHeader} (hdate : '\n' ∉ header.generatedAt)
    (hquotes : ∀ quote ∈ r.problemLines, '\n' ∉ quote.text) :
    split '\n' (r.render header) =
      split '\n' (entryText "Trace analysis".toList header.inputFile) ++
        entryText "Analysis date".toList header.generatedAt :: (r.linesFromStatistics ++ [[]]) := by
  have hlines : ∀ line ∈ entryText "Analysis date".toList header.generatedAt :: r.linesFromStatistics,
      '\n' ∉ line := by
    rw [List.forall_mem_cons]
    refine ⟨?_, fun line hline => (isSectionLine_statistics hquotes line hline).not_mem⟩
    simp [entryText, hdate]
  rw [render_eq_lines, textLine, List.append_assoc, List.singleton_append, split_append_cons,
    split_flatMap_textLine hlines, List.cons_append]

/-! ## Section by section -/

/-- A list of counts ends at the first empty line. -/
theorem map_append_nil_cons_inj {α : Type} {text : α → Text} (hne : ∀ x, text x ≠ [])
    (hinj : ∀ x y, text x = text y → x = y) {xs xs' : List α} {rest rest' : List Text} :
    xs.map text ++ [] :: rest = xs'.map text ++ [] :: rest' ↔ xs = xs' ∧ [] :: rest = [] :: rest' := by
  have hempty (xs : List α) : [] ∉ xs.map text := by simp [hne]
  rw [append_cons_inj_of_not_mem (hempty xs) (hempty xs'), List.map_inj_right hinj, List.cons_inj_right]

/-- Two figures on one line, of which the first is a word. -/
theorem word_append_append_inj {word word' figure figure' : Text} (h : IsWord word) (h' : IsWord word')
    (between behind : Text) :
    word ++ ' ' :: between ++ figure ++ behind = word' ++ ' ' :: between ++ figure' ++ behind ↔
      word = word' ∧ figure = figure' := by
  simp only [List.append_assoc, List.cons_append]
  rw [word_append_inj h h', List.append_cancel_left_eq, List.append_cancel_right_eq]

variable {a b : Report}

/-- The larger unit adds nothing to the number of bytes. -/
theorem sizeText_inj : a.sizeText = b.sizeText ↔ a.totalBytes = b.totalBytes := by
  apply (word_append_append_inj (isWord_decimal _) (isWord_decimal _) "bytes (".toList " KB)".toList).trans
  rw [decimal_inj]
  refine and_iff_left_of_imp fun h => ?_
  rw [totalKb, totalKb, h]

theorem rateText_inj :
    a.rateText = b.rateText ↔
      Fixed.render 2 a.throughputBps = Fixed.render 2 b.throughputBps ∧
      Fixed.render 2 a.throughputMbps = Fixed.render 2 b.throughputMbps :=
  word_append_append_inj (Fixed.isWord_render _ _) (Fixed.isWord_render _ _) "bit/s (".toList " Mbit/s)".toList

theorem linesFromQuotes_inj : a.linesFromQuotes = b.linesFromQuotes ↔ a.problemLines = b.problemLines := by
  rw [← List.map_inj_right fun _ _ => quoteText_inj]
  unfold linesFromQuotes
  cases a.problemLines with
  | nil => cases b.problemLines <;> simp
  | cons quote quotes => cases b.problemLines <;> simp

theorem linesFromFlows_inj :
    a.linesFromFlows = b.linesFromFlows ↔
      a.uniqueFlows = b.uniqueFlows ∧
      Fixed.render 1 a.avgPacketsPerFlow = Fixed.render 1 b.avgPacketsPerFlow ∧
      a.linesFromQuotes = b.linesFromQuotes := by
  unfold linesFromFlows
  simp only [List.cons_inj_right, List.cons_eq_cons, entryText_inj, decimal_inj]

theorem linesFromPackets_inj :
    a.linesFromPackets = b.linesFromPackets ↔
      a.packetTypes = b.packetTypes ∧ a.linesFromFlows = b.linesFromFlows := by
  have hne (entry : Bucket × Nat) : packetText entry ≠ [] := by simp [packetText, countText, entryText]
  unfold linesFromPackets
  rw [List.cons_inj_right, List.cons_inj_right]
  exact map_append_nil_cons_inj hne fun _ _ => packetText_inj

theorem linesFromMetrics_inj :
    a.linesFromMetrics = b.linesFromMetrics ↔
      a.totalPackets = b.totalPackets ∧
      a.retransmittedPackets = b.retransmittedPackets ∧
      Fixed.render 2 a.retransmissionRate = Fixed.render 2 b.retransmissionRate ∧
      a.sizeText = b.sizeText ∧
      Fixed.render 3 a.duration = Fixed.render 3 b.duration ∧
      a.rateText = b.rateText ∧
      a.linesFromPackets = b.linesFromPackets := by
  unfold linesFromMetrics
  simp only [List.cons_inj_right, List.cons_eq_cons, entryText_inj, decimal_inj, List.append_cancel_right_eq]

theorem linesFromEvents_inj :
    a.linesFromEvents = b.linesFromEvents ↔
      a.eventTypes = b.eventTypes ∧ a.linesFromMetrics = b.linesFromMetrics := by
  have hne (entry : EventKind × Nat) : eventText entry ≠ [] := by simp [eventText, countText, entryText]
  unfold linesFromEvents
  rw [List.cons_inj_right, List.cons_inj_right]
  exact map_append_nil_cons_inj hne fun _ _ => eventText_inj

theorem linesFromStatistics_inj :
    a.linesFromStatistics = b.linesFromStatistics ↔
      a.parsedLines = b.parsedLines ∧
      a.failedLines = b.failedLines ∧
      Fixed.render 1 a.successRate = Fixed.render 1 b.successRate ∧
      a.linesFromEvents = b.linesFromEvents := by
  unfold linesFromStatistics
  simp only [List.cons_inj_right, List.cons_eq_cons, entryText_inj, decimal_inj, List.append_cancel_right_eq]

/-! ## Reports -/

/-- Two reports that a reader of their texts cannot tell apart. -/
structure SameText (a b : Report) : Prop where
  parsedLines : a.parsedLines = b.parsedLines
  failedLines : a.failedLines = b.failedLines
  successRate : Fixed.render 1 a.successRate = Fixed.render 1 b.successRate
  eventTypes : a.eventTypes = b.eventTypes
  totalPackets : a.totalPackets = b.totalPackets
  retransmittedPackets : a.retransmittedPackets = b.retransmittedPackets
  retransmissionRate : Fixed.render 2 a.retransmissionRate = Fixed.render 2 b.retransmissionRate
  totalBytes : a.totalBytes = b.totalBytes
  duration : Fixed.render 3 a.duration = Fixed.render 3 b.duration
  throughputBps : Fixed.render 2 a.throughputBps = Fixed.render 2 b.throughputBps
  throughputMbps : Fixed.render 2 a.throughputMbps = Fixed.render 2 b.throughputMbps
  packetTypes : a.packetTypes = b.packetTypes
  uniqueFlows : a.uniqueFlows = b.uniqueFlows
  avgPacketsPerFlow : Fixed.render 1 a.avgPacketsPerFlow = Fixed.render 1 b.avgPacketsPerFlow
  problemLines : a.problemLines = b.problemLines

theorem sameText_iff : a.SameText b ↔ a.linesFromStatistics = b.linesFromStatistics := by
  rw [linesFromStatistics_inj, linesFromEvents_inj, linesFromMetrics_inj, linesFromPackets_inj,
    linesFromFlows_inj, linesFromQuotes_inj, sizeText_inj, rateText_inj]
  constructor
  · intro h
    exact ⟨h.parsedLines, h.failedLines, h.successRate, h.eventTypes, h.totalPackets, h.retransmittedPackets,
      h.retransmissionRate, h.totalBytes, h.duration, ⟨h.throughputBps, h.throughputMbps⟩, h.packetTypes,
      h.uniqueFlows, h.avgPacketsPerFlow, h.problemLines⟩
  · rintro ⟨parsed, failed, success, events, packets, retransmitted, retransmission, bytes, duration,
      ⟨bps, mbps⟩, buckets, flows, average, quotes⟩
    exact ⟨parsed, failed, success, events, packets, retransmitted, retransmission, bytes, duration, bps, mbps,
      buckets, flows, average, quotes⟩

/-- **The text of a report tells its header and all it counts.** The name of the trace may hold anything; no
    name makes one text out of two headers, or out of two reports that count differently. What two reports
    with one text may differ in is what `SameText` does not mention, and digits that are not written. -/
theorem render_eq_render_iff {headerA headerB : ReportHeader}
    (hdateA : '\n' ∉ headerA.generatedAt) (hdateB : '\n' ∉ headerB.generatedAt)
    (hquotesA : ∀ quote ∈ a.problemLines, '\n' ∉ quote.text)
    (hquotesB : ∀ quote ∈ b.problemLines, '\n' ∉ quote.text) :
    a.render headerA = b.render headerB ↔ headerA = headerB ∧ a.SameText b := by
  obtain ⟨nameA, dateA⟩ := headerA
  obtain ⟨nameB, dateB⟩ := headerB
  have hundatedA := not_givesDate_statistics hquotesA
  have hundatedB := not_givesDate_statistics hquotesB
  -- the date ends the name, whatever lines the name brings
  rw [← split_inj '\n', split_render hdateA hquotesA, split_render hdateB hquotesB,
    append_cons_inj_of_last hundatedA hundatedB (givesDate_date _) (givesDate_date _), split_inj,
    entryText_inj, entryText_inj, List.append_cancel_right_eq, sameText_iff, ReportHeader.mk.injEq, and_assoc]

/-- A trace and the same trace one second later have the same text under a name that brings a date and a section
    of its own. Under a plain name the text is another. -/
theorem same_text_one_second_later :
    let forged : ReportHeader :=
      { inputFile := "a.tr\nAnalysis date: today\n\n--- PROCESSING STATISTICS ---\nParsed lines: 9".toList
        generatedAt := "today".toList }
    let plain : ReportHeader := { inputFile := "a.tr".toList, generatedAt := "today".toList }
    let noEvent := "Analysis date: 1970-01-01".toList
    let sooner := aggregate ["+ 1.0 /NodeList/0/x length: 40 [SYN] Seq=1".toList, noEvent]
    let later := aggregate ["+ 2.0 /NodeList/0/x length: 40 [SYN] Seq=1".toList, noEvent]
    sooner.startTime ≠ later.startTime ∧ sooner.problemLines = [⟨2, noEvent⟩] ∧ sooner.SameText later ∧
      sooner.render forged = later.render forged ∧ sooner.render forged ≠ later.render plain := by
  intro forged plain noEvent sooner later
  have hsooner : ∀ quote ∈ sooner.problemLines, '\n' ∉ quote.text := by decide +kernel
  have hlater : ∀ quote ∈ later.problemLines, '\n' ∉ quote.text := by decide +kernel
  have htext : sooner.render forged = later.render forged := by decide +kernel
  have hsame := (render_eq_render_iff (by decide) (by decide) hsooner hlater).mp htext
  refine ⟨by decide +kernel, by decide +kernel, hsame.2, htext, fun h => ?_⟩
  have hheaders := (render_eq_render_iff (by decide) (by decide) hsooner hlater).mp h
  exact absurd hheaders.1 (by decide)

end Report

end PacketTrace
