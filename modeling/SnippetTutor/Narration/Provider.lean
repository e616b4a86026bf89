import SnippetTutor.Json.Basic

/-! # Providers of chat models

What is asked of a provider and how its reply is read. One provider takes the system
prompt apart from the messages and answers in blocks; the two others speak the
chat-completions format and answer in choices, of which the first one counts.
-/
namespace SnippetTutor

inductive Provider
  | claude
  | openai
  | ollama
deriving DecidableEq, Inhabited

/-- A request for one completion. -/
structure Completion where
  system : Text
  user : Text
  maxTokens : Int := 256
deriving DecidableEq, Inhabited

/-- How a connection to a provider is opened: the kit that is used, and its settings. -/
structure Connection where
  kit : String
  settings : List (String × Json) := []
deriving Inhabited

/-- A reply without any choice. -/
inductive NoChoice
  | empty
deriving DecidableEq, Inhabited

def NoChoice.message : NoChoice → String
  | .empty => "list index out of range"

namespace Provider

def all : List Provider := [.claude, .openai, .ollama]

def name : Provider → Text
  | .claude => "claude".toList
  | .openai => "openai".toList
  | .ollama => "ollama".toList

def ofName? (t : Text) : Option Provider := all.find? fun p => p.name == t

def names : List Text := all.map name

def unknownMessage (t : Text) : Text :=
  "Unknown LLM provider: ".toList ++ t ++ " (choose from ".toList ++
    Text.joinWith ", ".toList names ++ [')']

def defaultModel : Provider → Text
  | .claude => "claude-3-5-haiku-latest".toList
  | .openai => "gpt-4o-mini".toList
  | .ollama => "qwen2.5-coder:7b-instruct".toList

/-- An empty name stands for the default model. -/
def model (p : Provider) (wanted : Text) : Text := if wanted.isEmpty then p.defaultModel else wanted

def connection : Provider → Connection
  | .claude => ⟨"Anthropic", []⟩
  | .openai => ⟨"OpenAI", []⟩
  | .ollama =>
    ⟨"OpenAI", [("base_url", .str "http://localhost:11434/v1"), ("api_key", .str "ollama")]⟩

def message (role : String) (content : Text) : Json :=
  .obj [("role", .str role), ("content", .text content)]

/-- The request as the provider receives it. -/
def payload (p : Provider) (model : Text) (c : Completion) : Json :=
  match p with
  | .claude => .obj [("model", .text model), ("max_tokens", .int c.maxTokens),
      ("system", .text c.system), ("messages", .array [message "user" c.user])]
  | .openai | .ollama => .obj [("model", .text model),
      ("messages", .array [message "system" c.system, message "user" c.user]),
      ("max_tokens", .int c.maxTokens)]

/-- The text of a reply, given the texts of its blocks or choices. -/
def replyText (p : Provider) (parts : List (Option Text)) : Except NoChoice Text :=
  match p with
  | .claude => .ok (parts.flatMap (·.getD []))
  | .openai | .ollama => match parts with
    | [] => .error .empty
    | first :: _ => .ok (first.getD [])

end Provider

end SnippetTutor
