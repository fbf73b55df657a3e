import ClassSchema.Document.Call
import ClassSchema.Proofs.Writing
import Mathlib.Data.List.Induction

namespace ClassSchema.Draft

namespace Call

def asks (d : Draft) : Call → List Block
  | beginMessage .. | emitField .. => []
  | endMessage => d.pending.head?.elim [] OpenMessage.blocks
  | emitEnum name constants => [.enum name constants]
  | emitEntry name key value => [.mapEntry name (key.getD defaultType) (value.getD defaultType)]

/-- The messages that are open after a call, whether it returns or fails. -/
def opens (d : Draft) : Call → List OpenMessage
  | beginMessage name wrapped => { name, wrapped } :: d.pending
  | endMessage => d.pending.tail
  | emitField multiplicity type name ordinal =>
    match d.pending with
    | [] => []
    | m :: rest =>
      if Name.sanitize name = "" then m :: rest
      else
        { m with
          lines := m.lines ++ [⟨multiplicity, type.getD defaultType, Name.sanitize name, ordinal⟩] } ::
          rest
  | emitEnum .. | emitEntry .. => d.pending

theorem emitField_ends (d : Draft) (multiplicity : String) (type : Option String) (name : String)
    (ordinal : Int) :
    Ends (emitField multiplicity type name ordinal).perform d
      (fun _ e => Attempt d [] [] ((emitField multiplicity type name ordinal).opens d) e)
      (fun fault e => Attempt d [] [] ((emitField multiplicity type name ordinal).opens d) e ∧
        ∀ kind n earlier, fault ≠ .nameClash kind n earlier) := by
  cases hp : d.pending with
  | nil =>
      refine (emitField_outside hp multiplicity type name ordinal).mono (fun _ _ h => h) ?_
      rintro _ _ ⟨rfl, rfl⟩
      exact ⟨.of_eq rfl rfl rfl rfl (by simp [opens, hp]), nofun⟩
  | cons m rest =>
      refine (emitField_attempt hp multiplicity type name ordinal).mono ?_ ?_
      · rintro _ _ ⟨hl, rfl⟩
        exact .of_eq rfl rfl rfl rfl (by simp [opens, hp, hl])
      · rintro _ _ ⟨hl, rfl, rfl⟩
        exact ⟨.of_eq rfl rfl rfl rfl (by simp [opens, hp, hl]), nofun⟩

theorem endMessage_ends (d : Draft) :
    Ends endMessage.perform d
      (fun _ e => Attempt d (endMessage.asks d) (endMessage.asks d) d.pending.tail e)
      (fun fault e => ∃ new, new <+: (endMessage.asks d).dropLast ∧
        Attempt d (endMessage.asks d) new d.pending.tail e ∧
        ∀ kind n earlier, fault = .nameClash kind n earlier → Refusal d (endMessage.asks d) fault) := by
  apply Ends.discard
  cases hp : d.pending with
  | nil =>
      refine (endMessage_outside hp).mono (fun _ _ h => h) ?_
      rintro _ _ ⟨rfl, rfl⟩
      exact ⟨[], List.nil_prefix, .of_eq rfl rfl rfl rfl hp, nofun⟩
  | cons m rest =>
      have hasks : endMessage.asks d = m.blocks := by simp [asks, hp]
      rw [hasks]
      refine (endMessage_attempt hp).mono (fun _ _ h => h.2.1) ?_
      rintro fault e ⟨new, hnew, h, hf⟩
      refine ⟨new, hnew, h, ?_⟩
      rintro kind n earlier rfl
      rcases hf with hf | ⟨_, _, hfault⟩
      · exact hf
      · cases hfault

/-- A call that fails has written less than it was asked for, and refuses a name for a block that it
was asked for. -/
theorem perform_ends (c : Call) (d : Draft) :
    Ends c.perform d (fun _ e => Attempt d (c.asks d) (c.asks d) (c.opens d) e)
      (fun fault e => ∃ new, new <+: (c.asks d).dropLast ∧ Attempt d (c.asks d) new (c.opens d) e ∧
        ∀ kind n earlier, fault = .nameClash kind n earlier → Refusal d (c.asks d) fault) := by
  cases c with
  | beginMessage name wrapped => exact Ends.of_modify (.of_eq rfl rfl rfl rfl rfl)
  | endMessage => exact endMessage_ends d
  | emitField multiplicity type name ordinal =>
      refine (emitField_ends d multiplicity type name ordinal).mono (fun _ _ h => h) ?_
      rintro fault e ⟨h, hf⟩
      exact ⟨[], List.nil_prefix, h, fun kind n earlier heq => absurd heq (hf kind n earlier)⟩
  | emitEnum name constants =>
      refine (emitEnum_attempt d name constants).mono (fun _ _ h => h.2.2) ?_
      rintro fault _ ⟨rfl, hf⟩
      refine ⟨[], List.nil_prefix, .of_eq rfl rfl rfl rfl rfl, ?_⟩
      rintro kind n earlier rfl
      exact hf.resolve_left nofun
  | emitEntry name key value =>
      refine (emitEntry_attempt d name key value).mono (fun _ _ h => h.1) ?_
      rintro fault e ⟨h, hf⟩
      exact ⟨[], List.nil_prefix, h, fun _ _ _ _ => hf⟩

variable {c : Call} {d : Draft}

theorem leaves_of_returns (h : c.returns d = true) : Attempt d (c.asks d) (c.asks d) (c.opens d) (c.leaves d) := by
  unfold returns at h
  cases hc : c.perform d with
  | ok _ e =>
      have hl : c.leaves d = e := by simp only [leaves, hc]
      exact hl ▸ (perform_ends c d).of_ok hc
  | error fault e => simp [hc] at h

theorem leaves_of_fails (h : c.returns d = false) :
    ∃ new, new <+: (c.asks d).dropLast ∧ Attempt d (c.asks d) new (c.opens d) (c.leaves d) := by
  unfold returns at h
  cases hc : c.perform d with
  | ok _ e => simp [hc] at h
  | error fault e =>
      obtain ⟨new, hnew, ha, _⟩ := (perform_ends c d).of_error hc
      have hl : c.leaves d = e := by simp only [leaves, hc]
      exact ⟨new, hnew, hl ▸ ha⟩

theorem leaves_attempt (c : Call) (d : Draft) :
    ∃ new, Attempt d (c.asks d) new (c.opens d) (c.leaves d) := by
  cases h : c.returns d with
  | true => exact ⟨_, leaves_of_returns h⟩
  | false =>
      obtain ⟨new, _, ha⟩ := leaves_of_fails h
      exact ⟨new, ha⟩

end Call

/-- The calls are made while a message is innermost, or inside of messages that they open and close
again, and add the lines to it. -/
inductive Collects : List Call → List Line → Prop
  | none : Collects [] []
  | line {calls lines multiplicity type name ordinal} : Collects calls lines →
      Name.sanitize name ≠ "" → Collects (calls ++ [.emitField multiplicity type name ordinal])
        (lines ++ [⟨multiplicity, type.getD defaultType, Name.sanitize name, ordinal⟩])
  | refused {calls lines multiplicity type name ordinal} : Collects calls lines →
      Name.sanitize name = "" → Collects (calls ++ [.emitField multiplicity type name ordinal]) lines
  | enum {calls lines name constants} : Collects calls lines →
      Collects (calls ++ [.emitEnum name constants]) lines
  | entry {calls lines name key value} : Collects calls lines →
      Collects (calls ++ [.emitEntry name key value]) lines
  | inner {calls lines name wrapped calls' lines'} : Collects calls lines → Collects calls' lines' →
      Collects (calls ++ .beginMessage name wrapped :: calls' ++ [.endMessage]) lines

/-- How the calls have come to the messages that are open, the innermost first. -/
inductive Opened : List Call → List OpenMessage → Prop
  | outside {calls} : Opened calls []
  | message {before name wrapped calls lines rest} : Opened before rest → Collects calls lines →
      Opened (before ++ .beginMessage name wrapped :: calls) ({ name, wrapped, lines } :: rest)

variable {calls : List Call} {m : OpenMessage} {rest : List OpenMessage}

theorem Opened.concat {c : Call} {lines : List Line} (h : Opened calls (m :: rest))
    (hc : ∀ inner, Collects inner m.lines → Collects (inner ++ [c]) lines) :
    Opened (calls ++ [c]) ({ m with lines } :: rest) := by
  cases h with
  | message hrest hlines =>
      rw [List.append_assoc, List.cons_append]
      exact .message hrest (hc _ hlines)

theorem Opened.within {c : Call} {ms : List OpenMessage} (h : Opened calls ms)
    (hc : ∀ {inner lines}, Collects inner lines → Collects (inner ++ [c]) lines) :
    Opened (calls ++ [c]) ms := by
  cases ms with
  | nil => exact .outside
  | cons m rest => exact h.concat fun _ h => hc h

/-- The calls of a message that is closed are inside of the message around it. -/
theorem Opened.close (h : Opened calls (m :: rest)) : Opened (calls ++ [.endMessage]) rest := by
  cases h with
  | message hrest hlines =>
      cases hrest with
      | outside => exact .outside
      | message hrest' hlines' =>
          rw [List.append_assoc, List.append_assoc, List.cons_append, List.cons_append]
          exact .message hrest' (by simpa using hlines'.inner hlines)

theorem opened_run (calls : List Call) : Opened calls (run calls).pending := by
  induction calls using List.reverseRecOn with
  | nil => exact .outside
  | append_singleton calls c ih =>
      obtain ⟨_, h⟩ := c.leaves_attempt (run calls)
      rw [run_concat, h.pending]
      cases c with
      | beginMessage name wrapped => exact .message ih .none
      | endMessage =>
          cases hp : (run calls).pending with
          | nil => simpa only [Call.opens, hp] using .outside
          | cons m rest =>
              rw [hp] at ih
              simpa only [Call.opens, hp, List.tail_cons] using ih.close
      | emitField multiplicity type name ordinal =>
          cases hp : (run calls).pending with
          | nil => simpa only [Call.opens, hp] using .outside
          | cons m rest =>
              rw [hp] at ih
              simp only [Call.opens, hp]
              split
              next hl => exact ih.concat fun _ h => h.refused hl
              next hl => exact ih.concat fun _ h => h.line hl
      | emitEnum name constants => exact ih.within fun h => h.enum
      | emitEntry name key value => exact ih.within fun h => h.entry

theorem run_extends (calls more : List Call) :
    ∃ new, Extends (run calls) new (run (calls ++ more)) := by
  induction more using List.reverseRecOn with
  | nil => exact ⟨[], .of_eq (by simp) (by simp) (by simp) (by simp)⟩
  | append_singleton more c ih =>
      obtain ⟨new, h⟩ := ih
      obtain ⟨new', h'⟩ := c.leaves_attempt (run (calls ++ more))
      rw [← List.append_assoc, run_concat]
      exact ⟨new ++ new', h.trans h'.toExtends⟩

theorem extends_run (calls : List Call) : Extends {} (run calls).blocks (run calls) := by
  obtain ⟨new, h⟩ := run_extends [] calls
  have hb : (run calls).blocks = new := h.blocks
  exact hb ▸ h

/-- What a call writes that returns after the others. Where it ends a message, this is the message
with the lines that were collected for it, and its wrapper if it was opened with one. -/
inductive Writes (calls : List Call) : Call → List Block → Prop
  | beginMessage {name wrapped} : Writes calls (.beginMessage name wrapped) []
  | emitField {multiplicity type name ordinal} :
      Writes calls (.emitField multiplicity type name ordinal) []
  | emitEnum {name constants} : Writes calls (.emitEnum name constants) [.enum name constants]
  | emitEntry {name key value} : Writes calls (.emitEntry name key value)
      [.mapEntry name (key.getD defaultType) (value.getD defaultType)]
  | endMessage {before name wrapped inner lines} :
      calls = before ++ .beginMessage name wrapped :: inner → Collects inner lines →
      Writes calls .endMessage (.message name lines :: if wrapped then [.wrapper name] else [])

theorem Opened.writes (h : Opened calls (m :: rest)) : Writes calls .endMessage m.blocks := by
  cases h with
  | @message before name wrapped inner lines _ _ hlines =>
      have hb : OpenMessage.blocks { name, wrapped, lines } =
          .message name lines :: if wrapped then [.wrapper name] else [] := by
        cases wrapped <;> rfl
      rw [hb]
      exact .endMessage rfl hlines

theorem writes_asks (calls : List Call) (c : Call) (hc : c = .endMessage → (run calls).pending ≠ []) :
    Writes calls c (c.asks (run calls)) := by
  cases c with
  | beginMessage name wrapped => exact .beginMessage
  | emitField multiplicity type name ordinal => exact .emitField
  | emitEnum name constants => exact .emitEnum
  | emitEntry name key value => exact .emitEntry
  | endMessage =>
      obtain ⟨m, rest, hp⟩ := List.exists_cons_of_ne_nil (hc rfl)
      have hasks : Call.asks (run calls) .endMessage = m.blocks := by simp [Call.asks, hp]
      have hopened := opened_run calls
      rw [hp] at hopened
      exact hasks ▸ hopened.writes

/-- What there is after a run of calls, and what a further call adds to it. -/
structure Orderly (calls : List Call) : Prop where
  text : ∀ indent, (run calls).text indent = String.join ((run calls).blocks.map (fun b =>
    b.keyword ++ " " ++ b.name ++ " \x7b\n" ++ String.join (b.body indent) ++ "\x7d\n" ++ "\n"))
  messages : (run calls).messages =
    ((run calls).blocks.filter (fun b => b.keyword = "message")).map Block.name
  enums : (run calls).enums = ((run calls).blocks.filter (fun b => b.keyword = "enum")).map Block.name
  grows : ∀ more, ∃ new, (run (calls ++ more)).blocks = (run calls).blocks ++ new ∧
    ∀ indent, (run (calls ++ more)).text indent =
      (run calls).text indent ++ String.join (new.map (Block.text indent))
  returned : ∀ c, c.returns (run calls) = true → ∃ new, Writes calls c new ∧
    (run (calls ++ [c])).blocks = (run calls).blocks ++ new
  /-- Of a call that fails, nothing is written, or a message without the wrapper to follow it. -/
  failed : ∀ c, c.returns (run calls) = false →
    (run (calls ++ [c])).blocks = (run calls).blocks ∨
      ∃ b w, c = .endMessage ∧ Writes calls c [b, w] ∧
        (run (calls ++ [c])).blocks = (run calls).blocks ++ [b]
  pending : ∀ name constants key value,
    (run (calls ++ [.emitEnum name constants])).pending = (run calls).pending ∧
      (run (calls ++ [.emitEntry name key value])).pending = (run calls).pending

theorem keyword_message_iff (b : Block) : b.keyword = "message" ↔ b.kind ≠ .enum := by
  cases b <;> simp [Block.keyword, Block.kind]

theorem keyword_enum_iff (b : Block) : b.keyword = "enum" ↔ b.kind = .enum := by
  cases b <;> simp [Block.keyword, Block.kind]

theorem text_append {d e : Draft} {new : List Block} (h : e.blocks = d.blocks ++ new)
    (indent : String) :
    e.text indent = d.text indent ++ String.join (new.map (Block.text indent)) := by
  rw [text, h, List.map_append, String.join_append]
  rfl

theorem Call.asks_dropLast (c : Call) (d : Draft) {new : List Block} (h : new <+: (c.asks d).dropLast) :
    new = [] ∨ ∃ b w, c = .endMessage ∧ c.asks d = [b, w] ∧ new = [b] := by
  cases c with
  | endMessage =>
      cases hp : d.pending with
      | nil => exact Or.inl (by simpa [Call.asks, hp] using h)
      | cons m rest =>
          have hasks : Call.asks d .endMessage = m.blocks := by simp [Call.asks, hp]
          cases hw : m.wrapped with
          | false => exact Or.inl (by simpa [hasks, OpenMessage.blocks, hw] using h)
          | true =>
              have hb : m.blocks = [m.block, .wrapper m.name] := by simp [OpenMessage.blocks, hw]
              rw [hasks, hb] at h
              refine (List.prefix_concat_iff.mp h).symm.imp List.prefix_nil.mp fun h => ?_
              exact ⟨m.block, .wrapper m.name, rfl, hasks.trans hb, h⟩
  | beginMessage | emitField | emitEnum | emitEntry =>
      exact Or.inl (List.prefix_nil.mp h)

theorem pending_of_returns {calls : List Call} (h : Call.endMessage.returns (run calls) = true) :
    (run calls).pending ≠ [] := by
  intro hp
  have hfails : Ends Call.endMessage.perform (run calls) (fun _ _ => False) (fun _ _ => True) :=
    Ends.discard ((endMessage_outside hp).mono (fun _ _ h => h) (fun _ _ _ => trivial))
  unfold Call.returns at h
  cases hc : Call.endMessage.perform (run calls) with
  | ok _ e => exact hfails.of_ok hc
  | error fault e => simp [hc] at h

theorem run_orderly (calls : List Call) : Orderly calls where
  text := by
    intro indent
    have hb : ∀ b : Block, b.text indent = b.keyword ++ " " ++ b.name ++ " \x7b\n" ++
        String.join (b.body indent) ++ "\x7d\n" ++ "\n" := by
      intro b
      simp only [Block.text, String.append_assoc]
      rfl
    simp only [← hb]
    rfl
  messages := by
    simp only [keyword_message_iff]
    exact (extends_run calls).messages
  enums := by
    simp only [keyword_enum_iff]
    exact (extends_run calls).enums
  grows := by
    intro more
    obtain ⟨new, h⟩ := run_extends calls more
    exact ⟨new, h.blocks, text_append h.blocks⟩
  returned := by
    intro c hc
    rw [run_concat]
    refine ⟨c.asks (run calls), writes_asks calls c ?_, (Call.leaves_of_returns hc).blocks⟩
    rintro rfl
    exact pending_of_returns hc
  failed := by
    intro c hc
    obtain ⟨new, hnew, h⟩ := Call.leaves_of_fails hc
    rw [run_concat, h.blocks]
    rcases c.asks_dropLast _ hnew with rfl | ⟨b, w, rfl, hasks, rfl⟩
    · exact Or.inl (List.append_nil _)
    · refine Or.inr ⟨b, w, rfl, hasks ▸ writes_asks calls .endMessage ?_, rfl⟩
      rintro - hp
      simp [Call.asks, hp] at hasks
  pending := by
    intro name constants key value
    obtain ⟨_, henum⟩ := (Call.emitEnum name constants).leaves_attempt (run calls)
    obtain ⟨_, hentry⟩ := (Call.emitEntry name key value).leaves_attempt (run calls)
    rw [run_concat, run_concat]
    exact ⟨henum.pending, hentry.pending⟩

end ClassSchema.Draft
