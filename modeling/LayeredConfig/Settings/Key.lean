import LayeredConfig.Document.Edit

/-!
# Known settings

A known setting has one canonical key, other spellings of it, environment variables that override
it and a built-in default. A key that is not known stands for itself.
-/

namespace LayeredConfig

/-- The host that is assumed when none is configured. -/
def defaultHostname : String := "gitlab.com"

structure KnownKey where
  canonical : String
  spellings : List String := []
  variableNames : List String := []
  default : String := ""
deriving DecidableEq, Repr

namespace Key

def known : List KnownKey :=
  [⟨"token", ["gitlab_token", "oauth_token"],
      ["GITLAB_TOKEN", "GITLAB_ACCESS_TOKEN", "OAUTH_TOKEN"], ""⟩,
   ⟨"host", ["gitlab_host", "gitlab_uri"], ["GITLAB_HOST", "GITLAB_URI", "GL_HOST"],
      defaultHostname⟩,
   ⟨"api_host", ["gitlab_api_host"], ["GITLAB_API_HOST"], ""⟩,
   ⟨"api_protocol", [], ["GITLAB_API_PROTOCOL"], "https"⟩,
   ⟨"git_protocol", [], [], "ssh"⟩,
   ⟨"editor", [], ["GLAB_EDITOR", "VISUAL", "EDITOR"], ""⟩,
   ⟨"browser", [], ["BROWSER"], ""⟩,
   ⟨"glamour_style", [], ["GLAMOUR_STYLE"], "dark"⟩,
   ⟨"check_update", [], ["GLAB_CHECK_UPDATE"], "true"⟩,
   ⟨"no_prompt", [], ["NO_PROMPT"], "false"⟩,
   ⟨"ca_cert", [], [], ""⟩,
   ⟨"skip_tls_verify", [], [], "false"⟩]

def find? (key : String) : Option KnownKey :=
  known.find? fun k => k.canonical = key || k.spellings.contains key

def canonical (key : String) : String :=
  match find? key with
  | some k => k.canonical
  | none => key

/-- The environment variables of a key, the strongest first. -/
def variableNames (key : String) : List String :=
  match find? key with
  | some k => k.variableNames
  | none => []

def default (key : String) : String :=
  match find? key with
  | some k => k.default
  | none => ""

/-- The canonical keys in table order. -/
def names : List String :=
  known.map (·.canonical)

end Key

/-- The default host first, then the other names in their order, each once. -/
def orderHosts (names : List String) : List String :=
  names.foldl (fun ordered name => if ordered.contains name then ordered else ordered ++ [name])
    [defaultHostname]

/-! ## The document of a first run -/

namespace Defaults

/-- A key, its first value and the comment above it. -/
structure Seed where
  key : String
  text : String
  comment : String

def globals : List Seed :=
  [⟨"git_protocol", "ssh", "# What protocol to use when performing git operations. Supported values: ssh, https"⟩,
   ⟨"editor", "", "# What editor glab should run when creating issues, merge requests, etc. This is a global config that cannot be overridden by hostname."⟩,
   ⟨"browser", "", "# What browser glab should run when opening links. This is a global config that cannot be overridden by hostname."⟩,
   ⟨"glamour_style", "dark", "# Set your desired markdown renderer style. Available options are [dark, light, notty]."⟩,
   ⟨"check_update", "true", "# Allow glab to automatically check for updates and notify you when there are new updates"⟩]

def hostComment : String := "# Configuration specific for GitLab instances"

def host : List Seed :=
  [⟨"api_protocol", "https", "# What protocol to use to access the api endpoint. Supported values: http, https"⟩,
   ⟨"api_host", defaultHostname, "# Configure host for api endpoint, defaults to the host itself"⟩,
   ⟨"token", "", "# Your GitLab access token. Get an access token at https://gitlab.com/-/profile/personal_access_tokens"⟩]

/-- A plain scalar with comment lines above it. -/
def commented (text : String) (comments : List String) : Tree :=
  .scalar ⟨comments, none, []⟩ text .plain

def Seed.entry (seed : Seed) : Tree × Tree :=
  (commented seed.key [seed.comment], commented seed.text [])

/-- One explanatory comment per key. -/
def tree : Tree :=
  .mapping {} (globals.map Seed.entry ++
    [(commented "hosts" [hostComment],
      .mapping {} [(commented defaultHostname [], .mapping {} (host.map Seed.entry))])])

/-- The same tree as a document. -/
def document : Document :=
  let (d, root) := Document.empty.addTree tree
  { d with root }

end Defaults

end LayeredConfig
