import Mathlib.Data.List.DropRight

/-! # The lines of the chat server

Strings as lists of characters, with the operations that `chat-server.rs` uses on
them. A message that comes from a line stays one line.
-/

namespace Ground.Chat

abbrev Text := List Char

/-- The Unicode property `White_Space`. -/
def isWhitespace (c : Char) : Bool :=
  let code := c.toNat
  (0x09 ≤ code && code ≤ 0x0d) || code == 0x20 || code == 0x85 || code == 0xa0 ||
    code == 0x1680 || (0x2000 ≤ code && code ≤ 0x200a) || code == 0x2028 || code == 0x2029 ||
    code == 0x202f || code == 0x205f || code == 0x3000

def trim (text : Text) : Text := (text.dropWhile isWhitespace).rdropWhile isWhitespace

theorem mem_of_mem_trim {c : Char} {text : Text} (h : c ∈ trim text) : c ∈ text :=
  (List.dropWhile_sublist _).mem ((List.rdropWhile_prefix _ _).mem h)

theorem trim_concat {c : Char} (h : isWhitespace c = true) (text : Text) :
    trim (text ++ [c]) = trim text := by
  unfold trim
  cases hDrop : text.dropWhile isWhitespace with
  | nil =>
    have hAll : ∀ d ∈ text, isWhitespace d = true := List.dropWhile_eq_nil_iff.mp hDrop
    rw [List.dropWhile_append_of_pos hAll]
    simp [List.dropWhile, h]
  | cons d rest =>
    rw [List.dropWhile_append, hDrop]
    simp only [List.isEmpty_cons, Bool.false_eq_true, if_false]
    rw [List.rdropWhile_concat_pos _ _ _ h]

/-- What `read_line` reads: at most its last character is a line feed. -/
def IsLine (line : Text) : Prop := ∃ text, '\n' ∉ text ∧ (line = text ∨ line = text ++ ['\n'])

theorem IsLine.trim {line : Text} (h : IsLine line) : '\n' ∉ trim line := by
  obtain ⟨text, hText, rfl | rfl⟩ := h
  · exact fun hMem => hText (mem_of_mem_trim hMem)
  · rw [trim_concat (by decide)]
    exact fun hMem => hText (mem_of_mem_trim hMem)

structure Message where
  sender : Text
  text : Text
  deriving DecidableEq

def Message.format (message : Message) : Text :=
  "from ".toList ++ message.sender ++ ": ".toList ++ message.text ++ ['\n']

def asBytes (text : Text) : List UInt8 := text.flatMap String.utf8EncodeChar

theorem asBytes_format_ne_nil (message : Message) : asBytes message.format ≠ [] := by
  intro hNil
  have hFeed : '\n' ∈ message.format := List.mem_append_right _ (List.mem_singleton_self _)
  exact String.utf8EncodeChar_ne_nil (List.flatMap_eq_nil_iff.mp hNil '\n' hFeed)

/-- `line.splitn(2, ':')`, of which both parts are needed. -/
def splitMessage (line : Text) : Option (Text × Text) :=
  match line.dropWhile (· ≠ ':') with
  | [] => none
  | _ :: text => some (line.takeWhile (· ≠ ':'), trim text)

def outgoing (name line : Text) : List (Text × Message) :=
  match splitMessage line with
  | none => []
  | some (users, text) => (users.splitOn ',').map fun user => (user, { sender := name, text })

theorem outgoing_message {name line user : Text} {message : Message}
    (h : (user, message) ∈ outgoing name line) (hLine : '\n' ∉ line) :
    message.sender = name ∧ '\n' ∉ message.text := by
  unfold outgoing at h
  split at h
  · cases h
  · rename_i users text hSplit
    obtain ⟨user', -, hSame⟩ := List.mem_map.mp h
    cases hSame
    refine ⟨rfl, fun hMem => hLine ?_⟩
    unfold splitMessage at hSplit
    split at hSplit
    · cases hSplit
    · rename_i colon after hDrop
      cases hSplit
      have hAfter : '\n' ∈ line.dropWhile (· ≠ ':') := by
        rw [hDrop]
        exact List.mem_cons_of_mem _ (mem_of_mem_trim hMem)
      exact (List.dropWhile_sublist _).mem hAfter

end Ground.Chat
