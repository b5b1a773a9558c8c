import Freekick.Base.DictIter
import Freekick.Base.DictShare
import Freekick.Base.List
import Freekick.Base.PoolRuns
import Freekick.Blog.Append
import Freekick.Blog.Recover
import Freekick.Blog.Replies
import Freekick.Conf.Setting
import Freekick.Event.BackendsAgree
import Freekick.Event.HeapLeaves
import Freekick.Event.Poll
import Freekick.Kdb.Children
import Freekick.Kdb.Failures
import Freekick.Kdb.Freads
import Freekick.Kdb.RoundTrip
import Freekick.Lua.Answers
import Freekick.Lua.Args
import Freekick.Lua.Eval
import Freekick.Lua.Mbulk
import Freekick.Lua.Script
import Freekick.Net.Brim
import Freekick.Net.EventsAgree
import Freekick.Refs.ItemLists
import Freekick.Refs.Refine
import Freekick.Refs.Tags
import Freekick.Server.Answers
import Freekick.Server.Lifetimes
import Freekick.Server.Survives
import Freekick.Store.Apart
import Freekick.Store.Dispatch
import Freekick.Store.Hashes
import Freekick.Store.Isolation
import Freekick.Store.Link
import Freekick.Store.OneKey
import Freekick.Store.OneReply
import Freekick.Store.Queue
import Freekick.Store.Replay
import Freekick.Store.Runs
import Freekick.Store.Save
import Freekick.Store.Setex
import Freekick.Store.Simulation
import Freekick.Store.Space
import Freekick.Store.Sweep
import Freekick.Store.Tables
import Freekick.Store.Wire
import Freekick.Store.WriteLog
