/-!
# What a session tells about itself

The version and description of the console, the banner made of them, and the global name under which
a session finds them.
-/

namespace VaultConsole.About

/-- The version of the console. -/
def version : String := "0.1.0"

/-- The description of the console. -/
def about : String := "Lua scripting console for your vault. The vault is available as \"app\"."

/-- The global table of a session that holds version, description and banner. -/
def globalName : String := "_lua_console"

/-- The banner of a session whose language calls itself `languageVersion`. -/
def banner (languageVersion : String) : String :=
  languageVersion ++ "\nLua Console v" ++ version ++ "\n" ++ about

end VaultConsole.About
