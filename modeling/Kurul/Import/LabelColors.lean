import Kurul.Import.ImportOrder

/-! The colours of labels. The table is a plain object, so it also answers to the one lower-case word that every
object inherits. -/
namespace Kurul.Trello

/-- The slots of the palette. -/
def LabelColorSlot : List String :=
  ["slot-1", "slot-2", "slot-3", "slot-4", "slot-5", "slot-6", "slot-7", "slot-8"]

/-- What the colour column of a label accepts. -/
def SlotValue.Accepted : SlotValue → Prop
  | .slot name => name ∈ LabelColorSlot
  | .inherited => False

structure TrelloColorMapping where
  slot : SlotValue
  defaulted : Bool

section Colors

variable (runtime : Runtime) (color : Option JsString)

/-- The part before the first underscore, in lower case. -/
def colorBase : JsString := beforeUnderscore (runtime.toLowerCase (color.getD []))

def colorMapping : TrelloColorMapping where
  slot := (trelloColorToSlot runtime color).getD (.slot "slot-1")
  defaulted := (trelloColorToSlot runtime color).isNone

def KnownColor : Prop := ∃ entry ∈ TRELLO_COLOR_TO_SLOT, js entry.1 = colorBase runtime color

/-- A colour gets a slot, and is defaulted where it is not known. -/
structure Mapped : Prop where
  accepted : (colorMapping runtime color).slot.Accepted
  known : (colorMapping runtime color).defaulted = false ↔ KnownColor runtime color

end Colors

section Mapping

variable {runtime : Runtime} {color : Option JsString}

theorem slots_accepted : ∀ entry ∈ TRELLO_COLOR_TO_SLOT, entry.2 ∈ LabelColorSlot := by decide

theorem trelloColorToSlot_constructor (inherited : colorBase runtime color = js "constructor") :
    trelloColorToSlot runtime color = some .inherited := by
  unfold trelloColorToSlot
  exact if_pos inherited

/-- Of any other word the table tells whether the colour is known. -/
theorem trelloColorToSlot_plain (plain : colorBase runtime color ≠ js "constructor") :
    (trelloColorToSlot runtime color = none ∧ ¬KnownColor runtime color) ∨
      ∃ name ∈ LabelColorSlot, trelloColorToSlot runtime color = some (.slot name) ∧ KnownColor runtime color := by
  have read : trelloColorToSlot runtime color =
      (TRELLO_COLOR_TO_SLOT.find? fun entry => js entry.1 = colorBase runtime color).map fun entry => .slot entry.2 := by
    unfold trelloColorToSlot
    exact if_neg plain
  cases found : TRELLO_COLOR_TO_SLOT.find? fun entry => js entry.1 = colorBase runtime color with
  | none =>
      refine Or.inl ⟨by rw [read, found]; rfl, ?_⟩
      rintro ⟨entry, member, same⟩
      exact List.find?_eq_none.mp found entry member (by simpa using same)
  | some entry =>
      have member := List.mem_of_find?_eq_some found
      refine Or.inr ⟨entry.2, slots_accepted entry member, by rw [read, found]; rfl, entry, member, ?_⟩
      simpa using List.find?_some found

theorem mapped_iff : Mapped runtime color ↔ colorBase runtime color ≠ js "constructor" := by
  constructor
  · intro mapped inherited
    have accepted := mapped.accepted
    rw [colorMapping, trelloColorToSlot_constructor inherited] at accepted
    exact accepted
  · intro plain
    rcases trelloColorToSlot_plain plain with ⟨none_, unknown⟩ | ⟨name, listed, some_, known⟩
    · refine ⟨?_, ?_⟩
      · have first : "slot-1" ∈ LabelColorSlot := by decide
        simpa [colorMapping, none_, SlotValue.Accepted] using first
      · simp [colorMapping, none_, unknown]
    · refine ⟨?_, ?_⟩
      · simpa [colorMapping, some_, SlotValue.Accepted] using listed
      · simp [colorMapping, some_, known]

end Mapping

section Labels

variable {ι : Type} [DecidableEq ι] (runtime : Runtime) (supply : Nat → ι) (read : TrelloExportReadResult) (actorId : Id)

def labelDefaulted : SkipKey → Bool := fun key => key = (.Label, .Defaulted)

/-- Every label of the plan has a slot, and the report counts every colour that was substituted. -/
structure LabelsColored : Prop where
  accepted : ∀ label ∈ (planTrelloImport runtime supply read actorId).labels, label.color.Accepted
  counted : (read.source.labels.filter fun label => (colorMapping runtime label.color).defaulted).length ≤
    reported labelDefaulted (planTrelloImport runtime supply read actorId).skipped

theorem label_colors : (planTrelloImport runtime supply read actorId).labels.map PlannedLabel.color =
    read.source.labels.map fun label => (colorMapping runtime label.color).slot := by
  have made : ∀ index label n, (planLabel runtime supply (supply 0) label n).value.2.color =
      (fun (_ : Nat) (label : TrelloLabel) => (colorMapping runtime label.color).slot) index label := by
    intro _ label n
    simp [planLabel, uuidv7, colorMapping]
  have stage : (labelStage runtime supply read).value.map (fun row => row.2.color) = _ :=
    Draw.map_forEachIdx (fun row : JsString × PlannedLabel ι => row.2.color) _ 0 (columnStage supply read).next made
  change ((labelStage runtime supply read).value.map Prod.snd).map PlannedLabel.color = _
  calc ((labelStage runtime supply read).value.map Prod.snd).map PlannedLabel.color
      _ = (labelStage runtime supply read).value.map fun row => row.2.color := List.map_map
      _ = read.source.labels.zipIdx.map fun entry => (colorMapping runtime entry.1.color).slot := stage
      _ = (read.source.labels.zipIdx.map Prod.fst).map fun label => (colorMapping runtime label.color).slot := by
        rw [List.map_map]
        rfl
      _ = read.source.labels.map fun label => (colorMapping runtime label.color).slot := by rw [List.zipIdx_map_fst]

/-- What is reported of a label. -/
def labelSkips (label : TrelloLabel) : List SkipCall :=
  let name := clampToLength (labelName label) MAX_LABEL_NAME_LENGTH
  if (trelloColorToSlot runtime label.color).isNone || isUnnamed label.name || name.truncated then
    [skip .Label .Defaulted (some name.value)]
  else []

omit [DecidableEq ι] in
theorem labelStage_skips : (labelStage runtime supply read).log = read.source.labels.flatMap (labelSkips runtime) := by
  refine Draw.log_forEachIdx _ _ fun _ label n _ => ?_
  simp [planLabel, uuidv7, labelSkips]

theorem countOf_labelSkips (label : TrelloLabel) :
    (if (colorMapping runtime label.color).defaulted then 1 else 0) ≤
      countOf labelDefaulted (labelSkips runtime label) := by
  unfold labelSkips colorMapping
  dsimp only
  split
  · rename_i defaulted
    simp [defaulted, countOf, skip, SkipCall.key, labelDefaulted]
  · exact Nat.zero_le _

theorem substituted_counted : (read.source.labels.filter fun label => (colorMapping runtime label.color).defaulted).length ≤
    reported labelDefaulted (planTrelloImport runtime supply read actorId).skipped := by
  have logged : countOf labelDefaulted (labelStage runtime supply read).log ≤
      countOf labelDefaulted (planRows runtime supply read actorId 0).log := by
    rw [planRows_log]
    simp only [countOf_append]
    omega
  refine le_trans ?_ (logged.trans_eq (reported_report labelDefaulted _).symm)
  rw [labelStage_skips, countOf_flatMap, ← List.countP_eq_length_filter]
  induction read.source.labels with
  | nil => exact Nat.le_refl 0
  | cons label rest ih =>
      have here := countOf_labelSkips runtime label
      rw [List.countP_cons, List.map_cons, List.sum_cons]
      omega

theorem labels_colored_iff : LabelsColored runtime supply read actorId ↔
    ∀ label ∈ read.source.labels, colorBase runtime label.color ≠ js "constructor" := by
  have colors : (∀ label ∈ (planTrelloImport runtime supply read actorId).labels, label.color.Accepted) ↔
      ∀ label ∈ read.source.labels, (colorMapping runtime label.color).slot.Accepted := by
    rw [← List.forall_mem_map (P := SlotValue.Accepted), label_colors, List.forall_mem_map]
  constructor
  · intro colored label member inherited
    have accepted := colors.mp colored.accepted label member
    rw [colorMapping, trelloColorToSlot_constructor inherited] at accepted
    exact accepted
  · intro plain
    refine ⟨colors.mpr fun label member => ?_, substituted_counted runtime supply read actorId⟩
    exact (mapped_iff.mpr (plain label member)).accepted

end Labels

/-- A colour is mapped as it should be, and the labels of a plan are coloured, exactly where no colour's first word
is the one that objects inherit. -/
theorem colors_mapped_iff {ι : Type} [DecidableEq ι] (runtime : Runtime) (supply : Nat → ι)
    (read : TrelloExportReadResult) (actorId : Id) (color : Option JsString) :
    (Mapped runtime color ↔ colorBase runtime color ≠ js "constructor") ∧
      (LabelsColored runtime supply read actorId ↔
        ∀ label ∈ read.source.labels, colorBase runtime label.color ≠ js "constructor") :=
  ⟨mapped_iff, labels_colored_iff runtime supply read actorId⟩

theorem constructor_inherited : ¬Mapped sampleRuntime (some (js "Constructor_dark")) := by
  have inherited : colorBase sampleRuntime (some (js "Constructor_dark")) = js "constructor" := by decide
  exact fun mapped => mapped_iff.mp mapped inherited

end Kurul.Trello
