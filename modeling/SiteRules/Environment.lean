import SiteRules.Stack.Basic
import SiteRules.Text.Utf8

/-!
# Environments

What a run of the program finds around it besides files: variables, the homes of accounts, the stack
that it runs on, and the output that it writes to. The home of the user is the one that a variable
names; without that variable none is found, whatever the accounts say.
-/

namespace SiteRules

/-- Variables by name, the home directories of accounts by name, the stack, and the output. -/
structure Environment where
  bindings : List (Text × Text)
  accounts : List (Text × Text)
  stack : Stack
  /-- The wording of the failure with which the output refuses a text, if it does. It can refuse
  what its encoding does not hold. -/
  refusal? : Text → Option String

namespace Environment

/-- The wording of the failure with which output in UTF-8 refuses a text with a surrogate. -/
def utf8Refusal? (t : Text) : Option String :=
  match Utf8.encodeText t with
  | .ok _ => none
  | .error e => some e.message

/-- The environment without variables and accounts, in which the stack suffices for everything and
the output is in UTF-8. -/
def bare : Environment := ⟨[], [], .boundless, utf8Refusal?⟩

/-- The value of a variable. -/
def valueOf? (env : Environment) (name : Text) : Option Text :=
  env.bindings.lookup name

/-- A directory text without slashes at its end, unless that leaves nothing. -/
def trimSlashes (t : Text) : Text :=
  match (t.reverse.dropWhile fun (c : CodePoint) => c = '/').reverse with
  | [] => [CodePoint.ofChar '/']
  | t => t

/-- The home directory of an account; the one without a name is that of the user. -/
def home? (env : Environment) (account : Text) : Option Text :=
  let directory :=
    if account.isEmpty then env.valueOf? (Text.ofString "HOME") else env.accounts.lookup account
  match directory.map trimSlashes with
  | some home => if home.head? = some (CodePoint.ofChar '~') then none else some home
  | none => none

end Environment

end SiteRules
