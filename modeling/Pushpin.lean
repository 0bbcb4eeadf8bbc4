import Pushpin.Core.QtText
import Pushpin.Core.Updater
import Pushpin.Core.Utf8
import Pushpin.Handler.ControlRequest
import Pushpin.Proxy.TrimList
import Pushpin.Proxy.WorkerConfig
import Pushpin.Proxy.SessionBudget
import Pushpin.Proxy.EngineThread.Progress
import Pushpin.Proxy.RunLoop
import Pushpin.Proxy.Run
import Pushpin.Proxy.QuitHandler
import Pushpin.Proxy.MainLoop
import Pushpin.Proxy.Options
