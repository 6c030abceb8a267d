/-
The JSON texts of the backend's types: the members of a structure in the order
of their declaration, an empty optional as `null`.  Reading accepts the texts
that writing produces.
-/
import JustQueueIt.BackendServer
import JustQueueIt.JsonText

namespace JustQueueIt

namespace Backend

open JsonText TextReader

def nameOpening : Str :=
  "\x7b\"name\":".toList

def descriptionOpening : Str :=
  ",\"description\":".toList

def idOpening : Str :=
  "\x7b\"id\":".toList

def payloadOpening : Str :=
  ",\"payload\":".toList

def nullText : Str :=
  "null".toList

def noneText : Str :=
  "\x7b\x7d".toList

def writePayload (payload : TaskPayload) : Str :=
  nameOpening ++ writeString payload.name ++ descriptionOpening ++
    writeString payload.description ++ ['}']

def readPayload : Reader TaskPayload := fun text => do
  let text ← expect nameOpening text
  let (name, text) ← readString text
  let text ← expect descriptionOpening text
  let (description, text) ← readString text
  let text ← expect ['}'] text
  some (⟨name, description⟩, text)

def writeTask (task : Task) : Str :=
  idOpening ++ Stoull.numeral task.id ++ payloadOpening ++
    writePayload task.payload ++ ['}']

def readTask : Reader Task := fun text => do
  let text ← expect idOpening text
  let (id, text) ← readNumeral text
  let text ← expect payloadOpening text
  let (payload, text) ← readPayload text
  let text ← expect ['}'] text
  some (⟨id, payload⟩, text)

def writeOptional : Option Task → Str
  | none => nullText
  | some task => writeTask task

def readOptional (text : Str) : Option (Option Task) :=
  if text = nullText then some none else (readWhole readTask text).map some

theorem readPayload_inverts : Inverts readPayload writePayload := by
  intro payload rest
  simp only [readPayload, writePayload, List.append_assoc, expect_append,
    readString_inverts payload.name, readString_inverts payload.description,
    bind, Option.bind]

theorem readTask_inverts : Inverts readTask writeTask := by
  intro task rest
  have hid : ∀ tail, readNumeral (Stoull.numeral task.id ++
      (payloadOpening ++ tail)) = some (task.id, payloadOpening ++ tail) := by
    intro tail
    refine readNumeral_append task.id fun c hc => ?_
    obtain rfl : ',' = c := Option.some.inj hc
    decide
  simp only [readTask, writeTask, List.append_assoc, expect_append, hid,
    readPayload_inverts task.payload, bind, Option.bind]

theorem writeTask_cons (task : Task) :
    ∃ text, writeTask task = '{' :: text :=
  ⟨_, rfl⟩

/-- What `rfl::json::read(text).value()` throws. -/
def unreadable : StdException :=
  ⟨.runtimeError, "Could not parse document".toList⟩

/-- A codec from a writer and a reader of whole texts. -/
def codec {α : Type} (write : α → Str) (read : Str → Option α) :
    Rest.Rfl α where
  write := write
  read text :=
    match read text with
    | some value => .ok value
    | none => .error unreadable

theorem codec_lawful {α : Type} {write : α → Str} {read : Str → Option α}
    (hread : ∀ value, read (write value) = some value) :
    (codec write read).Lawful := by
  intro value
  simp only [codec, hread]

def taskJson : Json where
  payload := codec writePayload (readWhole readPayload)
  task := codec writeTask (readWhole readTask)
  tasks := codec (writeList writeTask) (readWhole (readList readTask))
  optionalTask := codec writeOptional readOptional
  none := codec (fun _ => noneText) fun text =>
    if text = noneText then some ⟨⟩ else none

theorem taskJson_lawful : taskJson.Lawful where
  payload := codec_lawful readPayload_inverts.readWhole
  task := codec_lawful readTask_inverts.readWhole
  tasks := codec_lawful (readList_inverts readTask_inverts fun task =>
    (writeTask_cons task).elim fun text htext =>
      ⟨'{', text, by decide, htext⟩).readWhole
  optionalTask := codec_lawful fun value => by
    cases value with
    | none => rfl
    | some task =>
        have hne : writeTask task ≠ nullText := by
          obtain ⟨text, htext⟩ := writeTask_cons task
          rw [htext]
          intro heq
          have hhead : some '{' = nullText.head? := congrArg List.head? heq
          exact absurd hhead (by decide)
        rw [writeOptional, readOptional, if_neg hne,
          readTask_inverts.readWhole, Option.map_some]
  present _ := rfl

end Backend

end JustQueueIt
