import ShardedCache.CacheError
import ShardedCache.Config.Basic

/-!
# Valid configurations

A configuration is used only if it has no flaw; the first flaw is the error of the call that
wanted to use it.
-/

namespace ShardedCache.Config

/-- Fails if a configuration has a flaw. -/
def validate (c : Config) : Except CacheError Unit :=
  match c.flaw? with
  | some flaw => .error (.invalidArgument flaw.message)
  | none => .ok ()

/-- The configuration itself, if it has no flaw. -/
def validated (c : Config) : Except CacheError Config := c.validate.map fun _ => c

end ShardedCache.Config
